import FreeProbe.Lib.Steps
import FreeProbe.Gum.SamplingGuard

/-!
# `Gum.Sampling` — one call in twenty, per bucket

A run of calls in which each guard executes as one step. What links one call to the next is the 64 counters:
a call enters with any registers, flags and memory, as long as the memory has the counters as the call
before left them. The invariant is that bucket `b` counts modulo the sample rate (`counters_mod`); the number
of sampled calls and the rank of each follow.
-/

namespace Gum

open X86 Lib

variable {t : TrampolineSite}

/-- The counters of a context, one byte for each bucket. -/
abbrev Counters := Fin 64 → Byte

/-- `sampling_counters` of a new context. -/
def zeroCounters : Counters := fun _ => 0

/-- The counters that a call's guard leaves. -/
def countersAfter (e : GuardEntry t) : Counters := samplingCounters (guardRun t e).st.mem t.functionCtx

/-- The guard on the counters alone: what it leaves in the bucket's counter, and whether it samples. -/
def samplingGuardStep (c : Counters) (b : Fin 64) : Counters × Bool :=
  if (c b).toNat + 1 < gumSampleRate then (Function.update c b (c b + 1), false)
  else (Function.update c b 0, true)

/-- A call of the hooked function: it finds the counters as the state has them and leaves its own. -/
def callSystem (t : TrampolineSite) : System Counters (GuardEntry t) where
  step c e c' := samplingCounters e.mem t.functionCtx = c ∧ c' = countersAfter e

/-- The call takes the slow path. -/
def Sampled (e : GuardEntry t) : Prop := (guardRun t e).pc = .outside t.enterThunk

instance (e : GuardEntry t) : Decidable (Sampled e) := inferInstanceAs (Decidable (_ = _))

/-- `N_b`: how many of the calls are by threads of bucket `b`. -/
def callsIn (b : Fin 64) (es : List (GuardEntry t)) : Nat := es.countP fun e => e.bucket = b

/-- How many of them were sampled. -/
def sampledIn (b : Fin 64) (es : List (GuardEntry t)) : Nat := es.countP fun e => e.bucket = b ∧ Sampled e

theorem zeroCounters_toNat (b : Fin 64) : (zeroCounters b).toNat = 0 := rfl

theorem zeroCounters_lt (b : Fin 64) : (zeroCounters b).toNat < gumSampleRate := by
  rw [zeroCounters_toNat]
  decide

/-! ## One call -/

theorem sampled_iff (e : GuardEntry t) : Sampled e ↔ ¬ e.counter.toNat + 1 < gumSampleRate := by
  rw [Sampled, e.guardRun_pc]
  split <;> simp_all

theorem not_sampled_pc {e : GuardEntry t} (h : ¬ Sampled e) :
    (guardRun t e).pc = .inside onInvokeTrampoline := by
  rw [e.guardRun_pc, if_pos (not_not.mp ((sampled_iff e).not.mp h))]

theorem countersAfter_bucket (e : GuardEntry t) :
    countersAfter e e.bucket = if e.counter.toNat + 1 < gumSampleRate then e.counter + 1 else 0 :=
  e.guardRun_counter

theorem countersAfter_of_ne (e : GuardEntry t) {b : Fin 64} (hb : b ≠ e.bucket) :
    countersAfter e b = samplingCounters e.mem t.functionCtx b :=
  e.guardRun_counters_of_ne hb

theorem samplingGuardStep_of_ne (c : Counters) {b b' : Fin 64} (hb : b' ≠ b) :
    (samplingGuardStep c b).1 b' = c b' := by
  unfold samplingGuardStep
  split <;> exact Function.update_of_ne hb ..

/-- A counter that counts modulo the sample rate goes on doing so. -/
theorem samplingGuardStep_mod {c : Counters} {b : Fin 64} {n : Nat} (h : (c b).toNat = n % gumSampleRate) :
    ((samplingGuardStep c b).1 b).toNat = (n + 1) % gumSampleRate := by
  have hone : (1 : Byte).toNat = 1 := rfl
  have hzero : (0 : Byte).toNat = 0 := rfl
  unfold samplingGuardStep gumSampleRate at *
  split
  · simp only [Function.update_self, BitVec.toNat_add, hone]; omega
  · simp only [Function.update_self, hzero]; omega

/-- It samples when the rank of the call in the bucket is a multiple of the sample rate. -/
theorem samplingGuardStep_sampled {c : Counters} {b : Fin 64} {n : Nat} (h : (c b).toNat = n % gumSampleRate) :
    (samplingGuardStep c b).2 = true ↔ gumSampleRate ∣ n + 1 := by
  unfold samplingGuardStep gumSampleRate at *
  split
  · simp only [Bool.false_eq_true, false_iff]; omega
  · simp only [true_iff]; omega

/-- **The machine's guard is the guard on the counters.** -/
theorem guardRun_samplingGuardStep (e : GuardEntry t) :
    samplingGuardStep (samplingCounters e.mem t.functionCtx) e.bucket =
      (countersAfter e, decide (Sampled e)) := by
  have hafter : ∀ v, countersAfter e e.bucket = v →
      Function.update (samplingCounters e.mem t.functionCtx) e.bucket v = countersAfter e := by
    rintro v rfl
    refine Function.update_eq_iff.mpr ⟨rfl, fun b hb => (countersAfter_of_ne e hb).symm⟩
  have hcount := countersAfter_bucket e
  have hcounter : (samplingCounters e.mem t.functionCtx e.bucket) = e.counter := rfl
  simp only [samplingGuardStep, hcounter, sampled_iff]
  by_cases h : e.counter.toNat + 1 < gumSampleRate
  · rw [if_pos h] at hcount
    rw [if_pos h, hafter _ hcount, decide_eq_false (not_not.mpr h)]
  · rw [if_neg h] at hcount
    rw [if_neg h, hafter _ hcount, decide_eq_true h]

theorem countersAfter_mod {e : GuardEntry t} {n : Nat} (h : e.counter.toNat = n % gumSampleRate) :
    (countersAfter e e.bucket).toNat = (n + 1) % gumSampleRate := by
  have hafter : (samplingGuardStep _ e.bucket).1 = countersAfter e :=
    congrArg Prod.fst (guardRun_samplingGuardStep e)
  rw [← hafter]
  exact samplingGuardStep_mod h

theorem sampled_iff_dvd {e : GuardEntry t} {n : Nat} (h : e.counter.toNat = n % gumSampleRate) :
    Sampled e ↔ gumSampleRate ∣ n + 1 := by
  rw [← samplingGuardStep_sampled (c := samplingCounters e.mem t.functionCtx) (b := e.bucket) h,
    guardRun_samplingGuardStep, decide_eq_true_iff]

/-! ## Counting calls -/

theorem callsIn_snoc (b : Fin 64) (es : List (GuardEntry t)) (e : GuardEntry t) :
    callsIn b (es ++ [e]) = callsIn b es + if e.bucket = b then 1 else 0 := by
  simp [callsIn, List.countP_append, List.countP_singleton]

theorem sampledIn_snoc (b : Fin 64) (es : List (GuardEntry t)) (e : GuardEntry t) :
    sampledIn b (es ++ [e]) = sampledIn b es + if e.bucket = b ∧ Sampled e then 1 else 0 := by
  simp [sampledIn, List.countP_append, List.countP_singleton]

/-! ## Runs -/

/-- **The counting invariant.** From counters `c₀`, the counter of a bucket is `c₀ b` plus its number of calls,
    modulo the sample rate. -/
theorem counters_mod {c₀ c : Counters} {es : List (GuardEntry t)} (h₀ : ∀ b, (c₀ b).toNat < gumSampleRate)
    (h : Run (callSystem t) c₀ es c) (b : Fin 64) :
    (c b).toNat = ((c₀ b).toNat + callsIn b es) % gumSampleRate := by
  induction h with
  | nil => exact (Nat.mod_eq_of_lt (h₀ b)).symm
  | @snoc es c c' e hrun hstep ih =>
      obtain ⟨hin, rfl⟩ := hstep
      rw [callsIn_snoc]
      by_cases hb : e.bucket = b
      · subst hb
        rw [if_pos rfl, ← Nat.add_assoc]
        exact countersAfter_mod ((congrArg BitVec.toNat (congrFun hin e.bucket)).trans ih)
      · rw [if_neg hb, Nat.add_zero, countersAfter_of_ne e (Ne.symm hb), hin, ih]

/-- The call after a run is sampled when its rank, counted from `c₀`, is a multiple of the sample rate. -/
theorem sampled_after {c₀ c c' : Counters} {es : List (GuardEntry t)} {e : GuardEntry t}
    (h₀ : ∀ b, (c₀ b).toNat < gumSampleRate) (h : Run (callSystem t) c₀ es c)
    (hstep : (callSystem t).step c e c') :
    Sampled e ↔ gumSampleRate ∣ (c₀ e.bucket).toNat + callsIn e.bucket es + 1 :=
  sampled_iff_dvd ((congrArg BitVec.toNat (congrFun hstep.1 e.bucket)).trans (counters_mod h₀ h e.bucket))

/-- Sampled calls are the whole multiples of the sample rate so far. -/
theorem sampledIn_eq {c : Counters} {es : List (GuardEntry t)} (h : Run (callSystem t) zeroCounters es c)
    (b : Fin 64) : sampledIn b es = callsIn b es / gumSampleRate := by
  induction h with
  | nil => exact (Nat.zero_div _).symm
  | @snoc es c c' e hrun hstep ih =>
      have hs := sampled_after zeroCounters_lt hrun hstep
      rw [sampledIn_snoc, callsIn_snoc, ih]
      by_cases hb : e.bucket = b
      · subst hb
        rw [zeroCounters_toNat, Nat.zero_add] at hs
        simp only [true_and, hs, ↓reduceIte]
        exact (Nat.succ_div ..).symm
      · simp only [hb, false_and, ↓reduceIte, Nat.add_zero]

/-- From any counters in range, the calls of a bucket that complete its twenty bring a sampled one. -/
theorem exists_sampled {c₀ c : Counters} (h₀ : ∀ b, (c₀ b).toNat < gumSampleRate) {es : List (GuardEntry t)}
    (h : Run (callSystem t) c₀ es c) {b : Fin 64} (hb : gumSampleRate - (c₀ b).toNat ≤ callsIn b es) :
    ∃ e ∈ es, e.bucket = b ∧ Sampled e := by
  induction h with
  | nil => exact absurd hb (Nat.not_le_of_lt (Nat.sub_pos_of_lt (h₀ b)))
  | @snoc es c c' e hrun hstep ih =>
      by_cases hes : gumSampleRate - (c₀ b).toNat ≤ callsIn b es
      · obtain ⟨e', he', hs⟩ := ih hes
        exact ⟨e', List.mem_append_left _ he', hs⟩
      · rw [callsIn_snoc] at hb
        have hbe : e.bucket = b := by
          by_contra hne
          rw [if_neg hne, Nat.add_zero] at hb
          exact hes hb
        subst hbe
        rw [if_pos rfl] at hb
        have hlast : (c₀ e.bucket).toNat + callsIn e.bucket es + 1 = gumSampleRate := by
          have := h₀ e.bucket
          omega
        refine ⟨e, List.mem_append_right _ (List.mem_singleton_self e), rfl, ?_⟩
        rw [sampled_after h₀ hrun hstep, hlast]

/-- **One call in twenty.** From all-zero counters and after any calls by any threads: every counter is below
    20; each bucket has taken the slow path once for every 20 of its calls, on its 20th, 40th, … call, and
    the fast path otherwise; and no call has touched another bucket. -/
theorem guard_samples_one_in_twenty {c : Counters} {es : List (GuardEntry t)}
    (h : Run (callSystem t) zeroCounters es c) :
    (∀ b, (c b).toNat ≤ 19) ∧
    (∀ b, sampledIn b es = callsIn b es / 20) ∧
    ∀ pre e post, es = pre ++ e :: post →
      (20 ∣ callsIn e.bucket pre + 1 → (guardRun t e).pc = .outside t.enterThunk) ∧
      (¬ 20 ∣ callsIn e.bucket pre + 1 → (guardRun t e).pc = .inside onInvokeTrampoline) ∧
      ∀ b, b ≠ e.bucket → countersAfter e b = samplingCounters e.mem t.functionCtx b := by
  refine ⟨fun b => ?_, fun b => sampledIn_eq h b, ?_⟩
  · rw [counters_mod zeroCounters_lt h b]
    exact Nat.le_of_lt_succ (Nat.mod_lt _ (by decide))
  · rintro pre e post rfl
    rw [List.append_cons] at h
    obtain ⟨c', hpre, -⟩ := h.append_inv
    obtain ⟨c, hpre, hstep⟩ := hpre.snoc_inv
    have hs := sampled_after zeroCounters_lt hpre hstep
    rw [zeroCounters_toNat, Nat.zero_add] at hs
    exact ⟨hs.mpr, fun hn => not_sampled_pc fun hsam => hn (hs.mp hsam), fun b hb => countersAfter_of_ne e hb⟩

/-! ## A run past the sampled call -/

/-- The context's address in its slot, a thread id in the thread's control block, and counters. -/
def plainMem (c : Counters) (tid : BitVec 32) : Mem :=
  let counters : Mem := fun x => c ⟨(x - 0x1000).toNat % 64, Nat.mod_lt _ (by decide)⟩
  (counters.write64 (0x5000 + gumTcbTidOffset) (tid.setWidth 64)).write64 0x2000 0x1000

theorem plainMem_counters (c : Counters) (tid : BitVec 32) :
    samplingCounters (plainMem c tid) plainSite.functionCtx = c := by
  funext b
  have hb := b.isLt
  have hslot : ¬ InRange 0x2000 8 (counterAddress 0x1000 b) := by
    unfold InRange counterAddress
    bv_omega
  have htcb : ¬ InRange (0x5000 + gumTcbTidOffset) 8 (counterAddress 0x1000 b) := by
    unfold InRange counterAddress gumTcbTidOffset
    bv_omega
  have hindex : (counterAddress 0x1000 b - 0x1000).toNat % 64 = b := by
    unfold counterAddress
    bv_omega
  show plainMem c tid (counterAddress 0x1000 b) = c b
  unfold plainMem
  rw [write64_frame hslot, write64_frame htcb]
  exact congrArg c (Fin.ext hindex)

/-- A call by any thread that finds any counters. -/
def entryAt (c : Counters) (tid : BitVec 32) : GuardEntry plainSite where
  regs := plainEntry.regs
  flags := plainEntry.flags
  fsBase := 0x5000
  mem := plainMem c tid
  slot_ctx := read64_write64 ..
  tcb_apart := plain_tcb_apart
  counters_apart := plain_counters_apart

theorem entryAt_bucket (c : Counters) (tid : BitVec 32) : (entryAt c tid).bucket = bucketOf tid := by
  have hapart : ∀ x, InRange (0x5000 + gumTcbTidOffset) 8 x → ¬ InRange 0x2000 8 x := by
    intro x hx
    unfold InRange gumTcbTidOffset at *
    bv_omega
  have htid : (entryAt c tid).tid = tid := by
    show ((plainMem c tid).read64 (0x5000 + gumTcbTidOffset)).setWidth 32 = tid
    unfold plainMem
    rw [read64_write64_frame hapart, read64_write64]
    exact BitVec.setWidth_setWidth_of_le _ (by decide)
  exact congrArg bucketOf htid

/-- The calls of these threads, one after the other. -/
def plainCalls : Counters → List (BitVec 32) → List (GuardEntry plainSite)
  | _, [] => []
  | c, tid :: tids => entryAt c tid :: plainCalls (countersAfter (entryAt c tid)) tids

theorem plainCalls_run (tids : List (BitVec 32)) :
    ∀ c, ∃ c', Run (callSystem plainSite) c (plainCalls c tids) c' := by
  induction tids with
  | nil => exact fun c => ⟨c, Run.nil⟩
  | cons tid tids ih =>
      intro c
      obtain ⟨c', hrun⟩ := ih (countersAfter (entryAt c tid))
      have hstep : (callSystem plainSite).step c (entryAt c tid) (countersAfter (entryAt c tid)) :=
        ⟨plainMem_counters c tid, rfl⟩
      exact ⟨c', (Run.single hstep).append hrun⟩

theorem plainCalls_callsIn (b : Fin 64) (tids : List (BitVec 32)) :
    ∀ c, callsIn b (plainCalls c tids) = tids.countP fun tid => bucketOf tid = b := by
  induction tids with
  | nil => exact fun _ => rfl
  | cons tid tids ih =>
      intro c
      have hrest := ih (countersAfter (entryAt c tid))
      simp only [callsIn] at hrest ⊢
      rw [plainCalls, List.countP_cons, List.countP_cons, hrest, entryAt_bucket]

/-- Thread ids of two buckets: 0 and 64 share bucket 0, which is called 21 times; 3 has bucket 3, called 19 times. -/
def twoBuckets : List (BitVec 32) :=
  List.replicate 10 0 ++ List.replicate 19 3 ++ List.replicate 11 64

/-- The 20th call of bucket 0 is sampled, and bucket 3 is one short of it. -/
theorem guard_samples_twoBuckets :
    sampledIn 0 (plainCalls zeroCounters twoBuckets) = 1 ∧
    sampledIn 3 (plainCalls zeroCounters twoBuckets) = 0 ∧
    ∃ c, Run (callSystem plainSite) zeroCounters (plainCalls zeroCounters twoBuckets) c ∧ ∀ b, (c b).toNat ≤ 19 := by
  obtain ⟨c, hrun⟩ := plainCalls_run twoBuckets zeroCounters
  have hcalls0 : callsIn 0 (plainCalls zeroCounters twoBuckets) = 21 :=
    (plainCalls_callsIn 0 twoBuckets zeroCounters).trans (by decide)
  have hcalls3 : callsIn 3 (plainCalls zeroCounters twoBuckets) = 19 :=
    (plainCalls_callsIn 3 twoBuckets zeroCounters).trans (by decide)
  obtain ⟨hvalid, hsampled, -⟩ := guard_samples_one_in_twenty hrun
  exact ⟨by rw [hsampled, hcalls0], by rw [hsampled, hcalls3], c, hrun, hvalid⟩

end Gum
