import FreeProbe.Maps.RingbufSpace

/-!
# `Maps.RingbufFifo` — the ring buffer delivers what was submitted

The ring buffer against a queue of records: what each operation returns, and for `fetch_data` the samples handed to
the callback and the records left. Three things stand between the two. A record whose header takes the last 8 bytes of
the area has its data at the start, where `reserve` says, and `fetch_data` looks for it behind the header; the helpers
look there for the map's descriptor. And a producer's position that wraps is behind the consumer's.
-/

namespace Maps

/-- The condition under which an operation does what the queue does, on the session before it. -/
def RingSession.InReach (s : RingSession) : RingOp → Prop
  -- the producer's position does not wrap
  | .reserve size => roundedSize size.toNat ≤ s.rb.maxEnt.toNat - (s.rb.producerPos - s.rb.consumerPos).toNat →
      s.rb.producerPos.toNat + roundedSize size.toNat < 2 ^ 64
  -- the data of a record that is to be delivered is not at the start of the area
  | .submit i discard => ∀ r ∈ s.held i, r.sample ≠ 0 ∨ r.size = 0 ∨ discard
  | .bpfSubmit i discard => ∀ r ∈ s.held i, r.sample ≠ 0 ∨ s.selfFd = 0 ∧ (r.size = 0 ∨ discard)
  | _ => True

instance (s : RingSession) (op : RingOp) : Decidable (s.InReach op) := by
  unfold RingSession.InReach
  cases op <;> infer_instance

/-- The invariant: the memory holds the records, the positions did not wrap, and the data is in view. -/
structure RingSession.Queues (k : Nat) (s : RingSession) : Prop where
  holds  : s.Holds k
  wraps  : s.consumed + used s.pending < 2 ^ 64
  inView : InView s.pending

section Steps

variable {k : Nat} {s s' : RingSession} {r r' : Record}

/-- A record replaced by one of its size. -/
theorem RingSession.Queues.replaced (h : s.Queues k) (hholds : s'.Holds k) {i : Nat} (hheld : s.held i = some r)
    (hconsumed : s'.consumed = s.consumed) (hpending : s'.pending = s.pending.set i r') (htotal : r'.total = r.total)
    (hview : r'.status = .submitted → r'.sample ≠ 0 ∨ r'.size = 0) : s'.Queues k := by
  obtain ⟨-, pre, post, hsplit, hset⟩ := held_split hheld
  have hused : used s'.pending = used s.pending := by
    rw [hpending, hset, hsplit, used_append, used_append, used_cons, used_cons, htotal]
  refine ⟨hholds, ?_, ?_⟩
  · rw [hconsumed, hused]
    exact h.wraps
  · intro r'' hmem hsubmitted
    rw [hpending] at hmem
    rcases List.mem_or_eq_of_mem_set hmem with hold | rfl
    · exact h.inView r'' hold hsubmitted
    · exact hview hsubmitted

/-- Records consumed from the front. -/
theorem RingSession.Queues.dropped (h : s.Queues k) (hholds : s'.Holds k) {pre : List Record}
    (hpending : s.pending = pre ++ s'.pending) (hconsumed : s'.consumed = s.consumed + used pre) : s'.Queues k := by
  have hwraps := h.wraps
  have hview := h.inView
  rw [hpending] at hwraps hview
  refine ⟨hholds, ?_, fun r hr => hview r (List.mem_append_right pre hr)⟩
  rw [used_append] at hwraps
  rw [hconsumed, Nat.add_assoc]
  exact hwraps

/-- **Every operation in reach does what the queue does.** -/
theorem apply_queues (h : s.Queues k) {op : RingOp} (hop : s.InReach op) :
    ∃ result s', s.apply op = some (result, s') ∧ s'.Queues k ∧ result.1 = result.2 := by
  cases op with
  | reserve size =>
      obtain ⟨ret, s', hrun, hholds, hcases⟩ := apply_reserve h.holds size
      refine ⟨_, s', hrun, ?_, rfl⟩
      rcases hcases with rfl | ⟨record, hsize, hbusy, hconsumed, hfd, hpending⟩
      · exact h
      · have hroom := hholds.room
        have htotal : record.total = roundedSize size.toNat := congrArg roundedSize hsize
        have hwraps := h.wraps
        rw [hpending, used_append, used_cons, used_nil, Nat.add_zero, htotal] at hroom
        have hproducer : s.rb.producerPos.toNat = s.consumed + used s.pending := by
          rw [h.holds.producer, BitVec.toNat_ofNat, Nat.mod_eq_of_lt hwraps]
        have hafter : s.consumed + used s.pending + roundedSize size.toNat < 2 ^ 64 := by
          rw [← hproducer]
          refine hop ?_
          rw [used_toNat h.holds, h.holds.maxEnt]
          omega
        refine ⟨hholds, ?_, ?_⟩
        · rw [hconsumed, hpending, used_append, used_cons, used_nil, Nat.add_zero, htotal, ← Nat.add_assoc]
          exact hafter
        · intro r hr hsubmitted
          rw [hpending] at hr
          rcases List.mem_append.mp hr with hr | hr
          · exact h.inView r hr hsubmitted
          · rw [List.mem_singleton.mp hr, hbusy] at hsubmitted
            cases hsubmitted
  | write i offset bytes =>
      obtain ⟨s', hrun, hholds, hcases⟩ := apply_write h.holds i offset bytes
      refine ⟨_, s', hrun, ?_, rfl⟩
      rcases hcases with rfl | ⟨r, hheld, hconsumed, hfd, hpending⟩
      · exact h
      · refine h.replaced hholds hheld hconsumed hpending rfl fun hsubmitted => ?_
        have hbusy : (r.write offset bytes).status = .busy := (held_split hheld).1
        rw [hbusy] at hsubmitted
        cases hsubmitted
  | submit i discard =>
      obtain ⟨s', hrun, hholds, hcases⟩ := apply_submit h.holds i discard
      refine ⟨_, s', hrun, ?_, rfl⟩
      rcases hcases with rfl | ⟨r, hheld, hconsumed, hfd, hpending⟩
      · exact h
      · refine h.replaced hholds hheld hconsumed hpending rfl fun hsubmitted => ?_
        rcases hop r hheld with hne | hzero | hdiscard
        · exact Or.inl hne
        · exact Or.inr hzero
        · rw [Record.finish, if_pos hdiscard] at hsubmitted
          cases hsubmitted
  | bpfSubmit i discard =>
      rcases apply_bpfSubmit h.holds i discard with ⟨-, hrun⟩ | ⟨r, hheld, ours, s', hours, hrun, hholds, hconsumed, -,
        hpending⟩
      · exact ⟨_, s, hrun, h, rfl⟩
      · have hfound : ours = true := by
          rw [hours, decide_eq_true_eq]
          split
          · rename_i hzero
            rcases hop r hheld with hne | ⟨hfd, -⟩
            · exact absurd hzero hne
            · exact hfd.symm
          · rfl
        rw [hfound] at hrun hpending
        refine ⟨_, s', hrun, h.replaced hholds hheld hconsumed hpending rfl fun hsubmitted => ?_, rfl⟩
        rcases hop r hheld with hne | ⟨-, hzero | hdiscard⟩
        · exact Or.inl hne
        · exact Or.inr hzero
        · rw [Record.finish, if_pos hdiscard] at hsubmitted
          cases hsubmitted
  | advance =>
      obtain ⟨s', hrun, hholds, hcases⟩ := apply_advance h.holds
      refine ⟨_, s', hrun, ?_, rfl⟩
      rcases hcases with rfl | ⟨r, rest, hpending, -, hconsumed, -, hrest⟩
      · exact h
      · have hfirst : s.pending = [r] ++ s'.pending := by
          rw [hpending, hrest]
          rfl
        refine h.dropped hholds hfirst ?_
        rw [hconsumed, used_cons, used_nil, Nat.add_zero]
  | fetch cb =>
      obtain ⟨code, queue, s', hrun, hholds, ⟨pre, hpending, hconsumed, -⟩, hqueue⟩ := apply_fetch h.holds cb
      exact ⟨_, s', hrun, h.dropped hholds hpending hconsumed, hqueue h.wraps h.inView⟩

end Steps

/-- **The consumer receives what was submitted**, in every run whose operations are in reach: what the ring buffer
    returns is what the queue of records returns. -/
theorem ringbuf_fifo {k : Nat} (hk : k < 31) (pageSize : PageSize) (selfFd : BitVec 32) (ops : List RingOp)
    (hops : Lib.AllSteps RingSession.apply RingSession.InReach
      (.new pageSize (BitVec.ofNat 32 (2 ^ k)) selfFd) ops) :
    ∃ results s, Lib.runAll RingSession.apply (.new pageSize (BitVec.ofNat 32 (2 ^ k)) selfFd) ops = some (results, s) ∧
      ∀ result ∈ results, result.1 = result.2 := by
  have hnew : (RingSession.new pageSize (BitVec.ofNat 32 (2 ^ k)) selfFd).Queues k := by
    refine ⟨new_holds hk pageSize selfFd, ?_, fun r hr => absurd hr List.not_mem_nil⟩
    change 0 + used [] < 2 ^ 64
    rw [used_nil]
    decide
  obtain ⟨results, s, hrun, -, hequal⟩ := Lib.runAll_invariant (I := RingSession.Queues k)
    (Q := fun result : RingReturn × RingReturn => result.1 = result.2) (fun _ _ h hop => apply_queues h hop) hnew hops
  exact ⟨results, s, hrun, hequal⟩

/-- An empty record, and one of 4 bytes. -/
def twoRecords : List RingOp :=
  [.reserve 0, .submit 0 false, .fetch fun _ => 0, .reserve 4, .write 0 0 [1, 2, 3, 4], .submit 0 false,
    .fetch fun _ => 0]

theorem ringbuf_fifo_twoRecords :
    ∃ results s, Lib.runAll RingSession.apply (.new ⟨4096, by decide, by decide⟩ (BitVec.ofNat 32 (2 ^ 6)) 7) twoRecords =
        some (results, s) ∧ ∀ result ∈ results, result.1 = result.2 :=
  ringbuf_fifo (by decide) ⟨4096, by decide, by decide⟩ 7 twoRecords (by decide)

/-- In an area of 16 bytes the header of the second record is at its end, and the consumer gets what lies behind it. -/
theorem ringbuf_header_at_end :
    ¬ ∃ results s, Lib.runAll RingSession.apply (.new ⟨4096, by decide, by decide⟩ (BitVec.ofNat 32 (2 ^ 4)) 7)
        twoRecords = some (results, s) ∧ ∀ result ∈ results, result.1 = result.2 := by
  have hrun : (Lib.runAll RingSession.apply (.new ⟨4096, by decide, by decide⟩ (BitVec.ofNat 32 (2 ^ 4)) 7)
      twoRecords).map (fun run => run.1.all fun result => result.1 = result.2) = some false := by decide
  rintro ⟨results, s, heq, hequal⟩
  rw [heq, Option.map_some, Option.some_inj, List.all_eq_false] at hrun
  obtain ⟨result, hmem, hne⟩ := hrun
  exact hne (decide_eq_true (hequal result hmem))

end Maps
