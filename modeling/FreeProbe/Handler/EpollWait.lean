import FreeProbe.Handler.Manager
import Mathlib.Data.Finset.Basic
import Mathlib.Data.List.Nodup

/-!
# `Handler.EpollWait` — `bpftime_epoll_wait`

The call blocks two signals and polls: each round looks at all the files and puts an event out for each that has data,
as long as there is room. After a round with no event so far, the signals are let in for a millisecond. Between the
rounds the files, the clock and the signals do what they like, so what a round meets is an argument (`Round`); the rounds
of a call are all those that it makes.

The scans do not know of each other: what is put out is what the scans find, one scan after the other, up to `max_evt`
entries (`loop_spec`). Nor does a set of files know what is in it: a file that is added twice is there twice, and a scan
finds it twice.
-/

namespace Epoll

open Handler

def EINVAL : Int := 22
def EINTR : Int := 4
def EPOLLIN : BitVec 32 := 1

/-- `to_block`: `SIGINT` and `SIGTERM`. -/
def toBlock : Finset Nat := {2, 15}

/-! ## The watched files -/

def BPF_RINGBUF_BUSY_BIT : BitVec 32 := 0x80000000

/-- What is behind the pointer of a file: the object may be gone; `len` is the header at `consumer_pos`. -/
inductive FilePtr where
  | gone
  | softwarePerfEvent (dataHead dataTail : BitVec 64)
  | ringbuf (consumerPos producerPos : BitVec 64) (len : BitVec 32)
deriving DecidableEq, Repr

/-- `lock()`, and then `has_data()`. -/
def FilePtr.hasData : FilePtr → Bool
  | .gone => false
  | .softwarePerfEvent dataHead dataTail => dataTail ≠ dataHead
  | .ringbuf consumerPos producerPos len => consumerPos < producerPos ∧ len &&& BPF_RINGBUF_BUSY_BIT = 0

/-- `epoll_file`; `object` is which shared object its weak pointer is of. -/
structure EpollFile where
  object : Nat
  file   : FilePtr
  data   : BitVec 64
deriving DecidableEq, Repr

/-- `files.emplace_back` of `add_ringbuf_to_epoll` and `add_software_perf_event_to_epoll`. -/
def addFile (files : List EpollFile) (file : EpollFile) : List EpollFile := files ++ [file]

/-- `epoll_event`, with the object of the file that it is for. -/
structure EpollEvent where
  file   : Nat
  events : BitVec 32
  data   : BitVec 64
deriving DecidableEq, Repr

/-- What a round meets: the milliseconds since the call, the files, and the signal that `sigtimedwait` takes. -/
structure Round where
  elapsed : Int
  files   : List EpollFile
  signal  : Option Nat

/-- `reported` is what was put into `out_evts`. A caught signal's own handler is called. -/
structure Out where
  ret      : Int
  errno    : Option Int
  mask     : Finset Nat
  reported : List EpollEvent
  handled  : Option Nat
deriving DecidableEq

/-! ## The call -/

/-- What is put out for a file. -/
def EpollFile.event (p : EpollFile) : EpollEvent := ⟨p.object, EPOLLIN, p.data⟩

/-- The loop over the files. -/
def scan (maxEvt : Int) : List EpollFile → List EpollEvent → List EpollEvent
  | [], reported => reported
  | p :: files, reported =>
    if p.file.hasData ∧ (reported.length : Int) < maxEvt then scan maxEvt files (reported ++ [p.event])
    else scan maxEvt files reported

/-- The call is left here, and makes no more rounds. -/
def leave (rounds : List Round) (out : Out) : Option Out := if rounds.isEmpty then some out else none

/-- `while (next_id < max_evt)`; `orig` is the mask that `sigprocmask` has found. -/
def loop (maxEvt timeout : Int) (orig mask : Finset Nat) (reported : List EpollEvent) : List Round → Option Out
  | [] => if (reported.length : Int) < maxEvt then none else some ⟨reported.length, none, orig, reported, none⟩
  | round :: rounds =>
    if (reported.length : Int) < maxEvt then
      if timeout = 0 then leave rounds ⟨0, none, mask, reported, none⟩
      else if 0 < timeout ∧ timeout < round.elapsed then leave rounds ⟨reported.length, none, orig, reported, none⟩
      else
        let reported := scan maxEvt round.files reported
        if reported ≠ [] then loop maxEvt timeout orig mask reported rounds
        else
          -- the signals are let in, and one may be taken
          match round.signal with
          | some sig => leave rounds ⟨-1, some EINTR, orig, reported, some sig⟩
          | none => loop maxEvt timeout orig (mask \ toBlock ∪ toBlock) reported rounds
    else none

def isEpollFd (shm : Shm) (fd : Int) : Bool := shm.InRange fd && shm.slot fd = .epoll

/-- `blocked` is whether `sigprocmask` succeeds; the files are those of the epoll instance at `fd`. -/
def bpftime_epoll_wait (shm : Shm) (blocked : Bool) (mask : Finset Nat) (fd maxEvt timeout : Int) (rounds : List Round) :
    Option Out :=
  if timeout < -1 then leave rounds ⟨-1, some EINVAL, mask, [], none⟩
  else if !isEpollFd shm fd then leave rounds ⟨-1, some EINVAL, mask, [], none⟩
  else if !blocked then leave rounds ⟨-1, some EINVAL, mask, [], none⟩
  else loop maxEvt timeout mask (mask ∪ toBlock) [] rounds

/-! ## What the scans find -/

/-- The events of the files that have data, whether there is room for them or not. -/
def ready (files : List EpollFile) : List EpollEvent := (files.filter fun p => p.file.hasData).map EpollFile.event

/-- A round that gets to its scan. -/
def Round.Scanned (timeout : Int) (round : Round) : Prop := timeout ≠ 0 ∧ ¬ (0 < timeout ∧ timeout < round.elapsed)

instance Round.Scanned.decidable (timeout : Int) (round : Round) : Decidable (round.Scanned timeout) :=
  inferInstanceAs (Decidable (_ ∧ _))

def scans (timeout : Int) (rounds : List Round) : List (List EpollEvent) :=
  (rounds.filter fun round => decide (round.Scanned timeout)).map fun round => ready round.files

/-- What each list has of the first `n` entries of all. -/
def cutOff {α : Type} : Nat → List (List α) → List (List α)
  | _, [] => []
  | n, xs :: xss => xs.take n :: cutOff (n - xs.length) xss

theorem take_flatten {α : Type} (n : Nat) (xss : List (List α)) : xss.flatten.take n = (cutOff n xss).flatten := by
  induction xss generalizing n with
  | nil => simp [cutOff]
  | cons xs xss ih => rw [List.flatten_cons, List.take_append, cutOff, List.flatten_cons, ih]

variable {maxEvt timeout : Int} {orig mask : Finset Nat} {reported : List EpollEvent} {rounds : List Round} {out : Out}

/-- An event is for a file with data. -/
theorem mem_ready {files : List EpollFile} {e : EpollEvent} :
    e ∈ ready files ↔ ∃ p ∈ files, p.file.hasData = true ∧ p.event = e := by
  unfold ready
  rw [List.mem_map]
  constructor
  · rintro ⟨p, hp, he⟩
    obtain ⟨hmem, hdata⟩ := List.mem_filter.mp hp
    exact ⟨p, hmem, hdata, he⟩
  · rintro ⟨p, hmem, hdata, he⟩
    exact ⟨p, List.mem_filter.mpr ⟨hmem, hdata⟩, he⟩

/-- A scan puts out what it finds, as far as there is room. -/
theorem scan_eq (files : List EpollFile) (reported : List EpollEvent) :
    scan maxEvt files reported = reported ++ (ready files).take (maxEvt - reported.length).toNat := by
  induction files generalizing reported with
  | nil => simp [scan, ready]
  | cons p files ih =>
      by_cases hdata : p.file.hasData = true
      · have hready : ready (p :: files) = p.event :: ready files := by
          simp only [ready, List.filter_cons, hdata, if_true, List.map_cons]
        by_cases hroom : (reported.length : Int) < maxEvt
        · have hleft : (maxEvt - reported.length).toNat = (maxEvt - (reported.length + 1 : Nat)).toNat + 1 := by omega
          rw [scan, if_pos ⟨hdata, hroom⟩, ih, hready, hleft, List.take_succ_cons, List.length_append,
            List.length_singleton, List.append_assoc, List.singleton_append]
        · have hfull : (maxEvt - reported.length).toNat = 0 := by omega
          rw [scan, if_neg fun h => hroom h.2, ih, hfull, List.take_zero, List.take_zero]
      · have hready : ready (p :: files) = ready files := by
          simp only [ready, List.filter_cons, hdata, Bool.false_eq_true, if_false]
        rw [scan, if_neg fun h => hdata h.1, ih, hready]

/-! ## What the loop does -/

theorem of_leave {out' : Out} (h : leave rounds out = some out') : rounds = [] ∧ out' = out := by
  unfold leave at h
  split at h
  · next hempty => exact ⟨List.isEmpty_iff.mp hempty, (Option.some.inj h).symm⟩
  · cases h

/-- What is put out, however often the scan is made: what the scans find, one after the other, up to `max_evt`. -/
theorem scan_append (files : List EpollFile) (found : List EpollEvent) :
    scan maxEvt files reported ++ found.take (maxEvt - (scan maxEvt files reported).length).toNat =
      reported ++ (ready files ++ found).take (maxEvt - reported.length).toNat := by
  rw [scan_eq, List.take_append, List.length_append, List.length_take, List.append_assoc]
  congr 3
  omega

/-- What the caller gets of a call: the number of events, or an error and no events. -/
def Out.Counted (out : Out) : Prop := out.ret = out.reported.length ∨ out.ret = -1 ∧ out.reported = []

/-- **The loop** gives the mask back and puts out what the scans find. -/
theorem loop_spec (htimeout : timeout ≠ 0) (h : loop maxEvt timeout orig mask reported rounds = some out) :
    out.mask = orig ∧ out.Counted ∧
      out.reported = reported ++ (scans timeout rounds).flatten.take (maxEvt - reported.length).toNat := by
  induction rounds generalizing mask reported with
  | nil =>
      unfold loop at h
      split at h
      · cases h
      · cases h
        exact ⟨rfl, Or.inl rfl, by simp [scans]⟩
  | cons round rounds ih =>
      unfold loop at h
      by_cases hroom : (reported.length : Int) < maxEvt
      · rw [if_pos hroom, if_neg htimeout] at h
        by_cases hlate : 0 < timeout ∧ timeout < round.elapsed
        · -- the time is up
          rw [if_pos hlate] at h
          obtain ⟨rfl, rfl⟩ := of_leave h
          exact ⟨rfl, Or.inl rfl, by simp [scans, Round.Scanned, hlate]⟩
        · rw [if_neg hlate] at h
          have hscans : scans timeout (round :: rounds) = ready round.files :: scans timeout rounds := by
            have hscanned : round.Scanned timeout := ⟨htimeout, hlate⟩
            simp [scans, hscanned]
          rw [hscans, List.flatten_cons, ← scan_append]
          by_cases hnone : scan maxEvt round.files reported = []
          · simp only [hnone, ne_eq, not_true_eq_false, if_false] at h ⊢
            split at h
            · -- a signal is taken
              obtain ⟨rfl, rfl⟩ := of_leave h
              exact ⟨rfl, Or.inr ⟨rfl, rfl⟩, by simp [scans]⟩
            · exact ih h
          · simp only [if_pos hnone, ne_eq] at h
            exact ih h
      · rw [if_neg hroom] at h
        cases h

/-! ## What the caller is promised -/

/-- The mask is as before, and the events are at most `max_evt`, for files that are different and have data. -/
structure Bookkept (mask : Finset Nat) (maxEvt : Int) (rounds : List Round) (out : Out) : Prop where
  mask_eq   : out.mask = mask
  counted   : out.Counted
  length_le : out.reported.length ≤ maxEvt.toNat
  distinct  : (out.reported.map EpollEvent.file).Nodup
  hasData   : ∀ e ∈ out.reported, ∃ round ∈ rounds, ∃ p ∈ round.files, p.file.hasData = true ∧ p.event = e

/-- Among the first `n` entries no file is found twice by a scan, which goes through its files as they were added, and
    none by two scans. -/
def Apart (n : Nat) (found : List (List EpollEvent)) : Prop :=
  (∀ es ∈ cutOff n found, (es.map EpollEvent.file).Nodup) ∧
    (cutOff n found).Pairwise fun es es' => ∀ e ∈ es, ∀ e' ∈ es', e.file ≠ e'.file

instance Apart.decidable (n : Nat) (found : List (List EpollEvent)) : Decidable (Apart n found) :=
  inferInstanceAs (Decidable (_ ∧ _))

/-- A time-out of 0 comes to the return inside of the loop, where the signals are blocked. -/
def LeavesBlocked (shm : Shm) (blocked : Bool) (fd maxEvt timeout : Int) : Prop :=
  timeout = 0 ∧ isEpollFd shm fd = true ∧ blocked = true ∧ 0 < maxEvt

instance LeavesBlocked.decidable (shm : Shm) (blocked : Bool) (fd maxEvt timeout : Int) :
    Decidable (LeavesBlocked shm blocked fd maxEvt timeout) := inferInstanceAs (Decidable (_ ∧ _))

/-- The entries are of different files where the scans are. -/
theorem nodup_iff_apart (n : Nat) (timeout : Int) (rounds : List Round) :
    (((scans timeout rounds).flatten.take n).map EpollEvent.file).Nodup ↔ Apart n (scans timeout rounds) := by
  rw [take_flatten, List.map_flatten, List.nodup_flatten, List.pairwise_map, List.forall_mem_map]
  refine and_congr_right' (List.Pairwise.iff fun es es' => ?_)
  constructor
  · intro hdisjoint e he e' he' hsame
    exact hdisjoint (List.mem_map_of_mem he) (hsame ▸ List.mem_map_of_mem he')
  · intro hapart file hfile hfile'
    obtain ⟨e, he, rfl⟩ := List.mem_map.mp hfile
    obtain ⟨e', he', hsame⟩ := List.mem_map.mp hfile'
    exact hapart e he e' he' hsame.symm

/-- Nothing is put out by a call that makes no round to its end. -/
theorem bookkept_of_nothing (hmask : out.mask = mask) (hcounted : out.Counted) (hnone : out.reported = []) :
    Bookkept mask maxEvt rounds out := by
  refine ⟨hmask, hcounted, ?_, ?_, ?_⟩
  · rw [hnone]
    exact Nat.zero_le _
  · rw [hnone]
    exact List.nodup_nil
  · rw [hnone]
    exact fun e he => absurd he List.not_mem_nil

/-- A call with a time-out that is not 0 keeps its books exactly where its scans are apart. -/
theorem loop_bookkept_iff (htimeout : timeout ≠ 0) (h : loop maxEvt timeout orig mask [] rounds = some out) :
    Bookkept orig maxEvt rounds out ↔ Apart maxEvt.toNat (scans timeout rounds) := by
  obtain ⟨hmask, hcounted, hreported⟩ := loop_spec htimeout h
  rw [List.nil_append, List.length_nil, Nat.cast_zero, Int.sub_zero] at hreported
  constructor
  · intro hkept
    have hdistinct := hkept.distinct
    rw [hreported] at hdistinct
    exact (nodup_iff_apart _ timeout rounds).mp hdistinct
  · intro hapart
    refine ⟨hmask, hcounted, ?_, ?_, ?_⟩
    · rw [hreported]
      exact List.length_take_le ..
    · rw [hreported]
      exact (nodup_iff_apart _ timeout rounds).mpr hapart
    · intro e he
      rw [hreported] at he
      obtain ⟨found, hfound, he⟩ := List.mem_flatten.mp (List.mem_of_mem_take he)
      obtain ⟨round, hround, rfl⟩ := List.mem_map.mp hfound
      exact ⟨round, List.mem_of_mem_filter hround, mem_ready.mp he⟩

/-- No scan, nothing to tell apart. -/
theorem apart_nil (n : Nat) : Apart n [] := ⟨fun _ h => absurd h List.not_mem_nil, List.Pairwise.nil⟩

/-- A call with a time-out of 0 does not get to a scan. -/
theorem scans_zero (rounds : List Round) : scans 0 rounds = [] := by
  unfold scans
  rw [List.filter_eq_nil_iff.mpr, List.map_nil]
  intro round _ hscanned
  exact (of_decide_eq_true hscanned).1 rfl

/-- A call with a time-out of 0. -/
theorem loop_zero_bookkept_iff (h : loop maxEvt 0 mask (mask ∪ toBlock) [] rounds = some out) :
    Bookkept mask maxEvt rounds out ↔ (0 < maxEvt → toBlock ⊆ mask) := by
  cases rounds with
  | nil =>
    rw [loop, List.length_nil, Nat.cast_zero] at h
    split at h
    · cases h
    · next hnone =>
      cases h
      exact iff_of_true (bookkept_of_nothing rfl (Or.inl rfl) rfl) fun hpos => absurd hpos hnone
  | cons round rounds =>
    rw [loop, List.length_nil, Nat.cast_zero, if_pos rfl] at h
    split at h
    · next hpos =>
      obtain ⟨rfl, rfl⟩ := of_leave h
      constructor
      · intro hkept _
        exact Finset.union_eq_left.mp hkept.mask_eq
      · intro hblocked
        exact bookkept_of_nothing (Finset.union_eq_left.mpr (hblocked hpos)) (Or.inl rfl) rfl
    · cases h

/-- A call that is turned down before it blocks anything. -/
theorem turned_down (h : leave rounds ⟨-1, some EINVAL, mask, [], none⟩ = some out) :
    Bookkept mask maxEvt rounds out ∧ Apart maxEvt.toNat (scans timeout rounds) := by
  obtain ⟨rfl, rfl⟩ := of_leave h
  exact ⟨bookkept_of_nothing rfl (Or.inr ⟨rfl, rfl⟩) rfl, apart_nil _⟩

/-- **A call gives the mask back and puts out different files** exactly where it does not return inside of its loop, or
    the signals were blocked before, and where no file is found twice by its scans among the first `max_evt` entries. -/
theorem epoll_wait_bookkept_iff (shm : Shm) (blocked : Bool) (mask : Finset Nat) (fd maxEvt timeout : Int)
    (rounds : List Round) {out : Out} (h : bpftime_epoll_wait shm blocked mask fd maxEvt timeout rounds = some out) :
    Bookkept mask maxEvt rounds out ↔
      (LeavesBlocked shm blocked fd maxEvt timeout → toBlock ⊆ mask) ∧ Apart maxEvt.toNat (scans timeout rounds) := by
  unfold bpftime_epoll_wait at h
  by_cases htimeout : timeout < -1
  · rw [if_pos htimeout] at h
    obtain ⟨hkept, hapart⟩ := turned_down h
    exact iff_of_true hkept ⟨fun hleaves => absurd hleaves.1 (by omega), hapart⟩
  by_cases hfd : isEpollFd shm fd = true
  swap
  · rw [if_neg htimeout, if_pos (by simpa using hfd)] at h
    obtain ⟨hkept, hapart⟩ := turned_down h
    exact iff_of_true hkept ⟨fun hleaves => absurd hleaves.2.1 hfd, hapart⟩
  by_cases hblocked : blocked = true
  swap
  · rw [if_neg htimeout, if_neg (by simpa using hfd), if_pos (by simpa using hblocked)] at h
    obtain ⟨hkept, hapart⟩ := turned_down h
    exact iff_of_true hkept ⟨fun hleaves => absurd hleaves.2.2.1 hblocked, hapart⟩
  rw [if_neg htimeout, if_neg (by simpa using hfd), if_neg (by simpa using hblocked)] at h
  by_cases hzero : timeout = 0
  · subst hzero
    rw [loop_zero_bookkept_iff h, scans_zero, and_iff_left (apart_nil _)]
    exact ⟨fun hmask hleaves => hmask hleaves.2.2.2, fun hmask hpos => hmask ⟨rfl, hfd, hblocked, hpos⟩⟩
  · rw [loop_bookkept_iff hzero h, and_iff_right]
    exact fun hleaves => absurd hleaves.1 hzero

/-- A table with an epoll instance. -/
def watching : Shm := ⟨⟨true, false⟩, [.epoll], .empty⟩

/-- A ring buffer with a record, one without, and a perf event with data or without. -/
def fullRing (object : Nat) : EpollFile := ⟨object, .ringbuf 0 16 8, 7⟩

def emptyRing (object : Nat) : EpollFile := ⟨object, .ringbuf 16 16 0, 7⟩

def perfEvent (object : Nat) (dataHead : BitVec 64) : EpollFile := ⟨object, .softwarePerfEvent dataHead 0, 9⟩

/-- Three files are watched: at first none has data, then two have, which are read, then the third; then the time is up. -/
def fourRounds : List Round :=
  [⟨0, [emptyRing 3, emptyRing 4, perfEvent 5 0], none⟩, ⟨1, [fullRing 3, emptyRing 4, perfEvent 5 24], none⟩,
    ⟨2, [emptyRing 3, fullRing 4, perfEvent 5 0], none⟩, ⟨11, [emptyRing 3, fullRing 4, perfEvent 5 0], none⟩]

theorem epoll_wait_bookkept_iff_fourRounds :
    ∃ out, bpftime_epoll_wait watching true {10} 0 4 10 fourRounds = some out ∧
      out.reported.map EpollEvent.file = [3, 5, 4] ∧ Bookkept {10} 4 fourRounds out :=
  ⟨_, rfl, rfl, (epoll_wait_bookkept_iff watching true {10} 0 4 10 fourRounds rfl).mpr (by decide)⟩

/-- A ring buffer that nothing is taken out of, and one that was added twice. -/
def unread : Round := ⟨0, [fullRing 3], none⟩

def twice : Round := ⟨0, addFile (addFile [] (fullRing 3)) (fullRing 3), none⟩

/-- A time-out of 0 leaves the signals blocked, and one ring buffer is two events, in two rounds or in one. -/
theorem not_bookkept :
    (∃ out, bpftime_epoll_wait watching true ∅ 0 1 0 [unread] = some out ∧ ¬ Bookkept ∅ 1 [unread] out) ∧
      (∃ out, bpftime_epoll_wait watching true ∅ 0 2 10 [unread, unread] = some out ∧
        out.reported = [⟨3, EPOLLIN, 7⟩, ⟨3, EPOLLIN, 7⟩] ∧ ¬ Bookkept ∅ 2 [unread, unread] out) ∧
      ∃ out, bpftime_epoll_wait watching true ∅ 0 2 10 [twice] = some out ∧
        out.reported = [⟨3, EPOLLIN, 7⟩, ⟨3, EPOLLIN, 7⟩] ∧ ¬ Bookkept ∅ 2 [twice] out := by
  refine ⟨⟨_, rfl, fun h => ?_⟩, ⟨_, rfl, by decide, fun h => ?_⟩, _, rfl, by decide, fun h => ?_⟩
  · exact absurd h.mask_eq (by decide)
  · exact absurd h.distinct (by decide)
  · exact absurd h.distinct (by decide)

end Epoll
