import FreeProbe.Gum.Interceptor

/-!
# `Gum.Replacement` — which calls of a replaced function reach the replacement

`begin_invocation` and `dispatch` send every call they see to the replacement, but the sampling guard stands
before them and sends 19 calls in 20 to the relocated original. The run theorem (`replacement_total_iff`)
says when a run is spared: when each of its calls that should be replaced completes its bucket's twenty.

The way there: what an operation can do to a registered context (`registryInv_step`, `active_step`), what
the calls so far leave in its counters (`active_run`), and that a call under way stays so until its thread
dispatches it (`entering_step`).
-/

namespace Gum

open X86 Lib

variable {relocatable : Word → Bool}

/-- A context is registered for its own function, and counts below the sample rate. -/
structure RegistryInv (s : Interceptor) : Prop where
  address : ∀ f c, s.functionByAddress f = some c → (s.contexts c).functionAddress = f ∧ c < s.fresh
  counters : ∀ c b, ((s.contexts c).samplingCounters b).toNat < gumSampleRate

/-- `f` is replaced by `r`, in context `c`: instrumented with the default type and activated. -/
structure Active (s : Interceptor) (f : Word) (c : Nat) (r : Word) : Prop where
  registered : s.functionByAddress f = some c
  type : (s.contexts c).type = .default
  replaced : (s.contexts c).replacementFunction = r
  nonnull : r ≠ 0

/-- The call is one the replacement is for: its thread is outside the interceptor, does not ignore it, and
    is not running the replacement of this very function. -/
structure Eligible (s : Interceptor) (t : BitVec 32) (f : Word) : Prop where
  guard : (s.threads t).guard = false
  heeded : s.invokeListeners t = true
  outside : Interceptor.callingReplacement (s.threads t).stack f = false

/-! ## One operation on the registry

The operations of the interceptor, and what each leaves of the contexts that it is not about. -/

/-- The counters stay below the sample rate. -/
theorem samplingGuardStep_lt {c : Counters} (h : ∀ b, (c b).toNat < gumSampleRate) (b b' : Fin 64) :
    ((samplingGuardStep c b).1 b').toNat < gumSampleRate := by
  by_cases hbb : b' = b
  · subst hbb
    rw [samplingGuardStep_mod (Nat.mod_eq_of_lt (h b')).symm]
    exact Nat.mod_lt _ (by decide)
  · rw [samplingGuardStep_of_ne c hbb]
    exact h b'

/-- What `instrument` returns: the context already registered, or a new one that is now. -/
theorem instrument_cases {s s' : Interceptor} {type : GumInterceptorType} {f : Word} {c : Nat}
    (h : s.instrument relocatable type f = .ok (s', c)) :
    (s.functionByAddress f = some c ∧ s' = s) ∨
    (s.functionByAddress f = none ∧ c = s.fresh ∧ s' = s.register f (functionContextNew f type)) := by
  unfold Interceptor.instrument at h
  cases hf : s.functionByAddress f with
  | some c' =>
      simp only [hf] at h
      split at h
      · cases h
      · cases h
        exact .inl ⟨rfl, rfl⟩
  | none =>
      simp only [hf] at h
      split at h
      · cases h
        exact .inr ⟨rfl, rfl, rfl⟩
      · cases h

/-- `instrument` enters a context into the table. -/
theorem instrument_inv {s s' : Interceptor} {type : GumInterceptorType} {f : Word} {c : Nat}
    (hs : RegistryInv s) (h : s.instrument relocatable type f = .ok (s', c)) :
    RegistryInv s' ∧ s'.functionByAddress f = some c := by
  rcases instrument_cases h with ⟨hf, rfl⟩ | ⟨hf, rfl, rfl⟩
  · exact ⟨hs, hf⟩
  · refine ⟨⟨fun f' c' hc' => ?_, fun c' b => ?_⟩, Function.update_self ..⟩
    · rw [Interceptor.register_functionByAddress] at hc'
      rw [Interceptor.register_contexts]
      by_cases hff : f' = f
      · subst hff
        rw [Function.update_self] at hc'
        cases hc'
        exact ⟨by rw [Function.update_self]; rfl, Nat.lt_succ_self _⟩
      · rw [Function.update_of_ne hff] at hc'
        obtain ⟨ha, hlt⟩ := hs.address f' c' hc'
        exact ⟨by rw [Function.update_of_ne (Nat.ne_of_lt hlt)]; exact ha, Nat.lt_succ_of_lt hlt⟩
    · rw [Interceptor.register_contexts]
      by_cases hcc : c' = s.fresh
      · subst hcc
        rw [Function.update_self]
        exact zeroCounters_lt b
      · rw [Function.update_of_ne hcc]
        exact hs.counters c' b

/-- Replacing a context by one with the same address and counters in range. -/
theorem setContext_inv {s : Interceptor} (hs : RegistryInv s) {c : Nat} (ctx : FunctionContext)
    (ha : ctx.functionAddress = (s.contexts c).functionAddress)
    (hc : ∀ b, (ctx.samplingCounters b).toNat < gumSampleRate) : RegistryInv (s.setContext c ctx) where
  address := by
    intro f c' hc'
    obtain ⟨ha', hlt⟩ := hs.address f c' hc'
    refine ⟨?_, hlt⟩
    simp only [Interceptor.setContext]
    by_cases hcc : c' = c
    · subst hcc; rw [Function.update_self, ha, ha']
    · rw [Function.update_of_ne hcc, ha']
  counters := by
    intro c' b
    simp only [Interceptor.setContext]
    by_cases hcc : c' = c
    · subst hcc; rw [Function.update_self]; exact hc b
    · rw [Function.update_of_ne hcc]; exact hs.counters c' b

/-- Context `c` goes on being registered for `f` with its type, its replacement and its counters. -/
structure Kept (s s' : Interceptor) (f : Word) (c : Nat) : Prop where
  registered : s'.functionByAddress f = some c
  type : (s'.contexts c).type = (s.contexts c).type
  replaced : (s'.contexts c).replacementFunction = (s.contexts c).replacementFunction
  counters : (s'.contexts c).samplingCounters = (s.contexts c).samplingCounters

/-- A context that is kept stays replaced. -/
theorem Kept.active {s s' : Interceptor} {f r : Word} {c : Nat} (hk : Kept s s' f c) (h : Active s f c r) :
    Active s' f c r :=
  ⟨hk.registered, hk.type.trans h.type, hk.replaced.trans h.replaced, h.nonnull⟩

/-- An operation on threads only. -/
theorem Kept.of_registry_eq {s s' : Interceptor} {f : Word} {c : Nat} (hc : s'.contexts = s.contexts)
    (hf : s'.functionByAddress = s.functionByAddress) (h : s.functionByAddress f = some c) : Kept s s' f c :=
  ⟨hf ▸ h, by rw [hc], by rw [hc], by rw [hc]⟩

/-- One step after another. -/
theorem Kept.trans {s s' s'' : Interceptor} {f : Word} {c : Nat} (h : Kept s s' f c) (h' : Kept s' s'' f c) :
    Kept s s'' f c :=
  ⟨h'.registered, h'.type.trans h.type, h'.replaced.trans h.replaced, h'.counters.trans h.counters⟩

/-- `instrument` keeps the contexts that are there. -/
theorem instrument_kept {s s' : Interceptor} {type : GumInterceptorType} {f f' : Word} {c c' : Nat}
    (hs : RegistryInv s) (h : s.instrument relocatable type f' = .ok (s', c'))
    (hc : s.functionByAddress f = some c) : Kept s s' f c := by
  rcases instrument_cases h with ⟨-, rfl⟩ | ⟨hf', rfl, rfl⟩
  · exact Kept.of_registry_eq rfl rfl hc
  · have hne : f ≠ f' := fun he => by rw [he, hf'] at hc; cases hc
    have hcne : c ≠ s.fresh := Nat.ne_of_lt (hs.address f c hc).2
    refine ⟨?_, ?_, ?_, ?_⟩
    · rwa [Interceptor.register_functionByAddress, Function.update_of_ne hne]
    all_goals rw [Interceptor.register_contexts, Function.update_of_ne hcne]

/-- A context is replaced by one that keeps type, replacement and counters, or another context is. -/
theorem setContext_kept {s : Interceptor} {c : Nat} (c' : Nat) (ctx : FunctionContext) {f : Word}
    (hc : s.functionByAddress f = some c)
    (h : c' = c → ctx.type = (s.contexts c).type ∧
      ctx.replacementFunction = (s.contexts c).replacementFunction ∧
      ctx.samplingCounters = (s.contexts c).samplingCounters) : Kept s (s.setContext c' ctx) f c := by
  by_cases hcc : c = c'
  · subst hcc
    obtain ⟨ht, hr, hk⟩ := h rfl
    refine ⟨hc, ?_, ?_, ?_⟩ <;> simp only [Interceptor.setContext, Function.update_self] <;> assumption
  · refine ⟨hc, ?_, ?_, ?_⟩ <;> simp only [Interceptor.setContext, Function.update_of_ne hcc]

/-- `gum_interceptor_replace` keeps the table right. -/
theorem replace_inv {s : Interceptor} (hs : RegistryInv s) (type : GumInterceptorType) (f r : Word) :
    RegistryInv (s.replaceWithType relocatable type f r).2 := by
  unfold Interceptor.replaceWithType
  split
  · exact hs
  · exact hs
  · next s' c h =>
      obtain ⟨hs', hc⟩ := instrument_inv hs h
      split
      · exact hs'
      · exact setContext_inv hs' _ rfl (hs'.counters c)

/-- A function that is replaced is not replaced again. -/
theorem replace_kept {s : Interceptor} (hs : RegistryInv s) (type : GumInterceptorType) {f f' r r' : Word}
    {c : Nat} (h : Active s f c r) : Kept s (s.replaceWithType relocatable type f' r').2 f c := by
  unfold Interceptor.replaceWithType
  split
  · exact Kept.of_registry_eq rfl rfl h.registered
  · exact Kept.of_registry_eq rfl rfl h.registered
  · next s' c' hins =>
      have hk := instrument_kept hs hins h.registered
      split
      · exact hk
      · next hnull =>
          refine hk.trans (setContext_kept _ _ hk.registered fun he => ?_)
          -- the context that is given a replacement had none
          rw [he, not_not, (hk.active h).replaced] at hnull
          exact absurd hnull h.nonnull

/-- `gum_interceptor_revert` keeps the table right. -/
theorem revert_inv {s : Interceptor} (hs : RegistryInv s) (f : Word) : RegistryInv (s.revert f) := by
  unfold Interceptor.revert
  split
  · exact hs
  · next c hc =>
      have hs' := setContext_inv (c := c) hs { s.contexts c with replacementFunction := 0 } rfl
        (hs.counters c)
      simp only
      split
      · refine ⟨fun f' c' hc' => hs'.address f' c' ?_, hs'.counters⟩
        by_cases hff : f' = f
        · rw [hff] at hc'; simp only [Function.update_self] at hc'; cases hc'
        · simpa only [Function.update_of_ne hff] using hc'
      · exact hs'

/-- And the other functions as they are. -/
theorem revert_kept {s : Interceptor} (hs : RegistryInv s) {f f' : Word} {c : Nat}
    (hc : s.functionByAddress f = some c) (hne : f ≠ f') : Kept s (s.revert f') f c := by
  unfold Interceptor.revert
  split
  · exact Kept.of_registry_eq rfl rfl hc
  · next c' hc' =>
      have hcc : c' ≠ c := by
        rintro rfl
        exact hne ((hs.address f c' hc).1.symm.trans (hs.address f' c' hc').1)
      have hk := setContext_kept c' { s.contexts c' with replacementFunction := 0 } hc
        fun he => absurd he hcc
      simp only
      split
      · exact ⟨by simpa only [Function.update_of_ne hne] using hk.registered, hk.type, hk.replaced, hk.counters⟩
      · exact hk

/-- `gum_interceptor_attach` keeps the table right. -/
theorem attach_inv {s : Interceptor} (hs : RegistryInv s) (f : Word) (l : Listener) :
    RegistryInv (s.attach relocatable f l).2 := by
  unfold Interceptor.attach
  split
  · exact hs
  · exact hs
  · next s' c h =>
      obtain ⟨hs', hc⟩ := instrument_inv hs h
      split
      · exact hs'
      · exact setContext_inv hs' _ rfl (hs'.counters c)

/-- And a replaced function replaced. -/
theorem attach_kept {s : Interceptor} (hs : RegistryInv s) {f f' : Word} (l : Listener) {c : Nat}
    (hc : s.functionByAddress f = some c) : Kept s (s.attach relocatable f' l).2 f c := by
  unfold Interceptor.attach
  split
  · exact Kept.of_registry_eq rfl rfl hc
  · exact Kept.of_registry_eq rfl rfl hc
  · next s' c' hins =>
      have hk := instrument_kept hs hins hc
      split
      · exact hk
      · exact hk.trans (setContext_kept _ _ hk.registered fun he => by subst he; exact ⟨rfl, rfl, rfl⟩)

/-- `gum_interceptor_detach` keeps the table right. -/
theorem detach_inv {s : Interceptor} (hs : RegistryInv s) (l : Listener) : RegistryInv (s.detach l) where
  address := by
    intro f c hc
    obtain ⟨c', hc', hif⟩ := Option.bind_eq_some_iff.mp hc
    split at hif
    · cases hif
    · cases hif
      obtain ⟨ha, hlt⟩ := hs.address f c hc'
      refine ⟨?_, hlt⟩
      simp only [Interceptor.detach]
      split
      · exact ha
      · exact ha
  counters := by
    intro c b
    simp only [Interceptor.detach]
    split
    · exact hs.counters c b
    · exact hs.counters c b

/-- A replaced context is not empty, so losing a listener does not unregister it. -/
theorem detach_kept {s : Interceptor} (l : Listener) {f r : Word} {c : Nat} (h : Active s f c r) :
    Kept s (s.detach l) f c := by
  have hctx : (s.detach l).contexts c =
      if s.attached l c then (s.contexts c).removeListener l else s.contexts c := rfl
  have hnull : (s.contexts c).replacementFunction ≠ 0 := h.replaced ▸ h.nonnull
  refine ⟨?_, ?_, ?_, ?_⟩
  · simp only [Interceptor.detach, h.registered, Option.bind_some]
    by_cases ha : s.attached l c = true
    · have he : ((s.contexts c).removeListener l).isEmpty = false := FunctionContext.isEmpty_of_replaced hnull
      simp only [ha, ↓reduceIte, he, Bool.and_false, Bool.false_eq_true]
    · simp only [ha, Bool.false_and, Bool.false_eq_true, ↓reduceIte]
  all_goals
    rw [hctx]
    split <;> rfl

/-! ## One step

The guard counts, and then `begin_invocation` decides. A call changes nothing else of the registry. -/

/-- `begin_invocation` touches the calling thread only. -/
theorem beginInvocation_registry (s : Interceptor) (t : BitVec 32) (c : Nat) (ret : Word) :
    (s.beginInvocation t c ret).1.contexts = s.contexts ∧
    (s.beginInvocation t c ret).1.functionByAddress = s.functionByAddress ∧
    (s.beginInvocation t c ret).1.fresh = s.fresh := by
  unfold Interceptor.beginInvocation
  simp only
  split
  · exact ⟨rfl, rfl, rfl⟩
  · split <;> exact ⟨rfl, rfl, rfl⟩

/-- A dispatch changes nothing of it. -/
theorem dispatch_registry (s : Interceptor) (t : BitVec 32) (c : Nat) (w i : Bool) :
    (s.dispatch t c w i).1.contexts = s.contexts ∧
    (s.dispatch t c w i).1.functionByAddress = s.functionByAddress ∧
    (s.dispatch t c w i).1.fresh = s.fresh := by
  unfold Interceptor.dispatch
  simp only
  split <;> exact ⟨rfl, rfl, rfl⟩

/-- What the table rests on. -/
theorem RegistryInv.of_eq {s s' : Interceptor} (hs : RegistryInv s) (hc : s'.contexts = s.contexts)
    (hf : s'.functionByAddress = s.functionByAddress) (hn : s'.fresh = s.fresh) : RegistryInv s' :=
  ⟨by rw [hc, hf, hn]; exact hs.address, by rw [hc]; exact hs.counters⟩

/-- The context of the called function after its guard has run. -/
def ticked (s : Interceptor) (c : Nat) (t : BitVec 32) : Interceptor :=
  s.setContext c
    { s.contexts c with
      samplingCounters := (samplingGuardStep (s.contexts c).samplingCounters (bucketOf t)).1 }

/-- What a call of a function with a default context is: the guard, and `begin_invocation` if it samples. -/
theorem call_eq {s : Interceptor} {t : BitVec 32} {f ret : Word} {c : Nat}
    (hc : s.functionByAddress f = some c) (ht : (s.contexts c).type = .default) :
    s.call t f ret =
      if (samplingGuardStep (s.contexts c).samplingCounters (bucketOf t)).2 then
        (ticked s c t).beginInvocation t c ret
      else (ticked s c t, some (.onInvokeTrampoline c)) := by
  unfold Interceptor.call
  simp only [hc]
  split
  · next h => rw [ht] at h; cases h
  · rfl

/-- A call counts in one context. -/
theorem ticked_inv {s : Interceptor} (hs : RegistryInv s) (c : Nat) (t : BitVec 32) :
    RegistryInv (ticked s c t) :=
  setContext_inv hs _ rfl (samplingGuardStep_lt (hs.counters c) _)

/-- A call leaves the registry as its guard does. -/
theorem call_registry {s : Interceptor} (t : BitVec 32) {f : Word} (ret : Word) {c : Nat}
    (hc : s.functionByAddress f = some c) (ht : (s.contexts c).type = .default) :
    (s.call t f ret).1.contexts = (ticked s c t).contexts ∧
    (s.call t f ret).1.functionByAddress = s.functionByAddress ∧
    (s.call t f ret).1.fresh = s.fresh := by
  rw [call_eq hc ht]
  split
  · exact beginInvocation_registry _ t c ret
  · exact ⟨rfl, rfl, rfl⟩

/-- A call of a function that is not hooked, or hooked by a jump, leaves everything as it is. -/
theorem call_unguarded {s : Interceptor} {t : BitVec 32} {f ret : Word}
    (h : ∀ c, s.functionByAddress f = some c → (s.contexts c).type ≠ .default) : (s.call t f ret).1 = s := by
  unfold Interceptor.call
  cases hf : s.functionByAddress f with
  | none => rfl
  | some c =>
      cases ht : (s.contexts c).type with
      | default => exact absurd ht (h c hf)
      | fast => simp only [ht]

/-- And so keeps the table right. -/
theorem call_inv {s : Interceptor} (hs : RegistryInv s) (t : BitVec 32) (f ret : Word) :
    RegistryInv (s.call t f ret).1 := by
  by_cases h : ∃ c, s.functionByAddress f = some c ∧ (s.contexts c).type = .default
  · obtain ⟨c, hc, ht⟩ := h
    obtain ⟨hctx, hf, hn⟩ := call_registry t ret hc ht
    exact (ticked_inv hs c t).of_eq hctx hf hn
  · rw [call_unguarded fun c hc ht => h ⟨c, hc, ht⟩]
    exact hs

/-- A call of another function. -/
theorem call_kept {s : Interceptor} (hs : RegistryInv s) {f f' : Word} {c : Nat} (t : BitVec 32) (ret : Word)
    (hc : s.functionByAddress f = some c) (hne : f' ≠ f) : Kept s (s.call t f' ret).1 f c := by
  by_cases h : ∃ c', s.functionByAddress f' = some c' ∧ (s.contexts c').type = .default
  · obtain ⟨c', hc', ht⟩ := h
    obtain ⟨hctx, hf, -⟩ := call_registry t ret hc' ht
    have hcc : c' ≠ c := by
      rintro rfl
      exact hne ((hs.address f' c' hc').1.symm.trans (hs.address f c' hc).1)
    have hk : Kept s (ticked s c' t) f c := setContext_kept _ _ hc fun he => absurd he hcc
    exact hk.trans (Kept.of_registry_eq hctx (hf.trans rfl) hk.registered)
  · rw [call_unguarded fun c' hc' ht => h ⟨c', hc', ht⟩]
    exact Kept.of_registry_eq rfl rfl hc

/-- **Every step keeps the registry's invariant.** -/
theorem registryInv_step {s s' : Interceptor} {e : InterceptorEvent} (hs : RegistryInv s)
    (h : InterceptorStep relocatable s e s') : RegistryInv s' := by
  cases h with
  | replace type f r => exact replace_inv hs type f r
  | revert f => exact revert_inv hs f
  | attach f l => exact attach_inv hs f l
  | detach l => exact detach_inv hs l
  | ignoreCurrentThread t => exact hs.of_eq rfl rfl rfl
  | unignoreCurrentThread t => exact hs.of_eq rfl rfl rfl
  | maybeUnignoreCurrentThread t =>
      unfold Interceptor.maybeUnignoreCurrentThread
      split
      · exact hs
      · exact hs.of_eq rfl rfl rfl
  | ignoreOtherThreads t => exact hs.of_eq rfl rfl rfl
  | unignoreOtherThreads t _ => exact hs.of_eq rfl rfl rfl
  | call t f ret => exact call_inv hs t f ret
  | dispatch t c w i _ =>
      obtain ⟨hc, hf, hn⟩ := dispatch_registry s t c w i
      exact hs.of_eq hc hf hn
  | leave t _ _ => exact hs.of_eq rfl rfl rfl
  | resume t entry stack _ _ => exact hs.of_eq rfl rfl rfl

/-- **Every run keeps the table right.** -/
theorem registryInv_run {s : Interceptor} {es : List InterceptorEvent}
    (h : Run (interceptorSystem relocatable) .init es s) : RegistryInv s :=
  h.invariant (I := RegistryInv) ⟨fun _ _ hc => (Option.some_ne_none _ hc.symm).elim,
    fun _ b => zeroCounters_lt b⟩ fun _ _ _ hs hstep => registryInv_step hs hstep

/-- What an event does to the counters of `f`'s context: only calls of `f` tick. -/
def tick (f : Word) (k : Counters) : InterceptorEvent → Counters
  | .call t f' _ _ => if f' = f then (samplingGuardStep k (bucketOf t)).1 else k
  | _ => k

/-- **A replacement stays active** through every step that does not revert it, and its counters tick with the
    calls of its function. -/
theorem active_step {s s' : Interceptor} {e : InterceptorEvent} {f r : Word} {c : Nat} (hs : RegistryInv s)
    (ha : Active s f c r) (h : InterceptorStep relocatable s e s') (hno : e ≠ .revert f) :
    Active s' f c r ∧ (s'.contexts c).samplingCounters = tick f (s.contexts c).samplingCounters e := by
  have hkept : Kept s s' f c → Active s' f c r ∧
      (s'.contexts c).samplingCounters = (s.contexts c).samplingCounters :=
    fun hk => ⟨hk.active ha, hk.counters⟩
  have hsame : s'.contexts = s.contexts → s'.functionByAddress = s.functionByAddress →
      Active s' f c r ∧ (s'.contexts c).samplingCounters = (s.contexts c).samplingCounters :=
    fun hc hf => hkept (Kept.of_registry_eq hc hf ha.registered)
  -- only `revert` of the function takes its replacement away; a call counts
  cases h with
  | replace type f' r' => exact hkept (replace_kept hs type ha)
  | revert f' => exact hkept (revert_kept hs ha.registered fun he => hno (he ▸ rfl))
  | attach f' l => exact hkept (attach_kept hs l ha.registered)
  | detach l => exact hkept (detach_kept l ha)
  | ignoreCurrentThread t => exact hsame rfl rfl
  | unignoreCurrentThread t => exact hsame rfl rfl
  | maybeUnignoreCurrentThread t =>
      exact hsame (by unfold Interceptor.maybeUnignoreCurrentThread; split <;> rfl)
        (by unfold Interceptor.maybeUnignoreCurrentThread; split <;> rfl)
  | ignoreOtherThreads t => exact hsame rfl rfl
  | unignoreOtherThreads t _ => exact hsame rfl rfl
  | call t f' ret =>
      by_cases hf : f' = f
      · subst hf
        obtain ⟨hctx, hreg, -⟩ := call_registry t ret ha.registered ha.type
        have hc : (s.call t f' ret).1.contexts c = (ticked s c t).contexts c := congrFun hctx c
        simp only [ticked, Interceptor.setContext, Function.update_self] at hc
        simp only [tick, ↓reduceIte]
        exact ⟨⟨hreg ▸ ha.registered, by rw [hc]; exact ha.type, by rw [hc]; exact ha.replaced, ha.nonnull⟩,
          by rw [hc]⟩
      · simp only [tick, if_neg hf]
        exact hkept (call_kept hs t ret ha.registered hf)
  | dispatch t c' w i _ =>
      obtain ⟨hc, hf, -⟩ := dispatch_registry s t c' w i
      exact hsame hc hf
  | leave t _ _ => exact hsame rfl rfl
  | resume t entry stack _ _ => exact hsame rfl rfl

/-! ## A call under way

A call that is sampled is sent to the replacement at once or to the function. -/

/-- `t` is inside `begin_invocation` of context `c`, with the return trap decided on. -/
def Entering (s : Interceptor) (t : BitVec 32) (c : Nat) : Prop :=
  (s.threads t).guard = true ∧ ∃ i, (s.threads t).phase = .entering c true i

/-- In the guard a hooked call changes nothing. -/
theorem beginInvocation_threads_of_guard {s : Interceptor} {t : BitVec 32} (c : Nat) (ret : Word)
    (h : (s.threads t).guard = true) : (s.beginInvocation t c ret).1 = s := by
  unfold Interceptor.beginInvocation
  simp only [h, ↓reduceIte]

/-- Nor does it for another thread. -/
theorem beginInvocation_threads_of_ne (s : Interceptor) {t t' : BitVec 32} (c : Nat) (ret : Word)
    (hne : t ≠ t') : (s.beginInvocation t' c ret).1.threads t = s.threads t := by
  unfold Interceptor.beginInvocation
  simp only
  split
  · rfl
  · split
    · rfl
    · exact Function.update_of_ne hne ..

/-- A thread's own call, out of a listener, is bypassed or skipped; a call by another thread is none of its
    business. -/
theorem call_threads {s : Interceptor} {t t' : BitVec 32} (f ret : Word)
    (h : t = t' → (s.threads t).guard = true) : (s.call t' f ret).1.threads t = s.threads t := by
  by_cases hd : ∃ c, s.functionByAddress f = some c ∧ (s.contexts c).type = .default
  · obtain ⟨c, hc, ht⟩ := hd
    rw [call_eq hc ht]
    split
    · by_cases htt : t = t'
      · subst htt
        have hg : ((ticked s c t).threads t).guard = true := h rfl
        rw [beginInvocation_threads_of_guard c ret hg]
        rfl
      · exact beginInvocation_threads_of_ne _ c ret htt
    · rfl
  · rw [call_unguarded fun c hc ht => hd ⟨c, hc, ht⟩]

/-- And neither does a dispatch. -/
theorem dispatch_threads_of_ne (s : Interceptor) {t t' : BitVec 32} (c : Nat) (w i : Bool) (hne : t ≠ t') :
    (s.dispatch t' c w i).1.threads t = s.threads t := by
  unfold Interceptor.dispatch
  simp only
  split <;> exact Function.update_of_ne hne ..

/-- Changes of the ignore level keep a call under way. -/
theorem Entering.setIgnoreLevel {s : Interceptor} {t : BitVec 32} {c : Nat} (h : Entering s t c)
    (t' : BitVec 32) (n : Int) : Entering (s.setThread t' { s.threads t' with ignoreLevel := n }) t c := by
  unfold Entering
  rw [Interceptor.setThread_threads]
  by_cases htt : t = t'
  · subst htt
    rw [Function.update_self]
    exact h
  · rw [Function.update_of_ne htt]
    exact h

/-- Whether a thread is entering depends on the thread only. -/
theorem Entering.of_threads {s s' : Interceptor} {t : BitVec 32} {c : Nat} (h : Entering s t c)
    (ht : s'.threads t = s.threads t) : Entering s' t c := by
  unfold Entering
  rw [ht]
  exact h

/-- Replacing changes no thread. -/
theorem replace_threads (s : Interceptor) (type : GumInterceptorType) (f r : Word) :
    (s.replaceWithType relocatable type f r).2.threads = s.threads := by
  unfold Interceptor.replaceWithType
  split
  · rfl
  · rfl
  · next s' c h =>
      have hs' : s'.threads = s.threads := by rcases instrument_cases h with ⟨-, rfl⟩ | ⟨-, -, rfl⟩ <;> rfl
      split <;> exact hs'

/-- Nor does attaching. -/
theorem attach_threads (s : Interceptor) (f : Word) (l : Listener) :
    (s.attach relocatable f l).2.threads = s.threads := by
  unfold Interceptor.attach
  split
  · rfl
  · rfl
  · next s' c h =>
      have hs' : s'.threads = s.threads := by rcases instrument_cases h with ⟨-, rfl⟩ | ⟨-, -, rfl⟩ <;> rfl
      split <;> exact hs'

/-- Nor does reverting. -/
theorem revert_threads (s : Interceptor) (f : Word) : (s.revert f).threads = s.threads := by
  unfold Interceptor.revert
  split
  · rfl
  · simp only
    split <;> rfl

/-- **A call stays under way** until its own thread dispatches it. -/
theorem entering_step {s s' : Interceptor} {e : InterceptorEvent} {t : BitVec 32} {c : Nat}
    (h : Entering s t c) (hstep : InterceptorStep relocatable s e s') (hno : ∀ hop, e ≠ .dispatch t hop) :
    Entering s' t c := by
  obtain ⟨hguard, i, hphase⟩ := h
  have h : Entering s t c := ⟨hguard, i, hphase⟩
  -- only a dispatch of the thread takes it on
  cases hstep with
  | replace type f r => exact h.of_threads (congrFun (replace_threads s type f r) t)
  | revert f => exact h.of_threads (congrFun (revert_threads s f) t)
  | attach f l => exact h.of_threads (congrFun (attach_threads s f l) t)
  | detach l => exact h
  | ignoreCurrentThread t' => exact h.setIgnoreLevel t' _
  | unignoreCurrentThread t' => exact h.setIgnoreLevel t' _
  | maybeUnignoreCurrentThread t' =>
      unfold Interceptor.maybeUnignoreCurrentThread
      split
      · exact h
      · exact h.setIgnoreLevel t' _
  | ignoreOtherThreads t' => exact h
  | unignoreOtherThreads t' _ => exact h
  | call t' f ret => exact h.of_threads (call_threads f ret fun _ => hguard)
  | dispatch t' c' w i' _ =>
      refine h.of_threads (dispatch_threads_of_ne s c' w i' fun he => ?_)
      subst he
      exact hno _ rfl
  | leave t' hrun _ =>
      refine h.of_threads (Function.update_of_ne (fun he => ?_) ..)
      rw [← he, hphase] at hrun
      cases hrun
  | resume t' entry stack hleave _ =>
      refine h.of_threads (Function.update_of_ne (fun he => ?_) ..)
      rw [← he, hphase] at hleave
      cases hleave

/-- A dispatched call of an active replacement goes to it. -/
theorem dispatch_hop {s : Interceptor} {t : BitVec 32} {f r : Word} {c : Nat} (ha : Active s f c r) (i : Bool) :
    (s.dispatch t c true i).2 = .replacementFunction r := by
  unfold Interceptor.dispatch
  simp only [ha.replaced, ne_eq, ha.nonnull, not_false_eq_true, ↓reduceIte, Bool.true_or]

/-- The hop that `t` next dispatches to. -/
def fate (t : BitVec 32) : List InterceptorEvent → Option Hop
  | [] => none
  | .dispatch t' hop :: es => if t' = t then some hop else fate t es
  | _ :: es => fate t es

/-- **A call under way is dispatched to the replacement**, if that is not reverted before. -/
theorem fate_replaced {f r : Word} {c : Nat} {t : BitVec 32} {es : List InterceptorEvent} {s s₁ : Interceptor}
    (hs : RegistryInv s) (ha : Active s f c r) (he : Entering s t c)
    (h : Run (interceptorSystem relocatable) s es s₁) (hno : .revert f ∉ es) {hop : Hop}
    (hf : fate t es = some hop) : hop = .replacementFunction r := by
  induction es generalizing s with
  | nil => cases hf
  | cons e es ih =>
      obtain ⟨s', hstep, hrun⟩ := h.cons_inv
      have hne : e ≠ .revert f := fun h' => hno (h' ▸ List.mem_cons_self)
      have hno' : .revert f ∉ es := fun h' => hno (List.mem_cons_of_mem _ h')
      have ha' := (active_step hs ha hstep hne).1
      have hs' := registryInv_step hs hstep
      by_cases hd : ∃ hop', e = .dispatch t hop'
      · obtain ⟨hop', rfl⟩ := hd
        rw [fate, if_pos rfl] at hf
        cases hf
        obtain ⟨-, i, hphase⟩ := he
        cases hstep with
        | dispatch t c' w i' hphase' =>
            rw [hphase] at hphase'
            cases hphase'
            exact dispatch_hop ha i
      · have hnd : ∀ hop', e ≠ .dispatch t hop' := fun hop' h' => hd ⟨hop', h'⟩
        refine ih hs' ha' (entering_step he hstep hnd) hrun hno' ?_
        cases e with
        | dispatch t' hop' =>
            rw [fate, if_neg fun h' => hnd hop' (by rw [h'])] at hf
            exact hf
        | _ => exact hf

/-! ## One call -/

/-- A call that its guard skips runs the original. -/
theorem call_skipped {s : Interceptor} {t : BitVec 32} {f r ret : Word} {c : Nat} (ha : Active s f c r)
    (hskip : (samplingGuardStep (s.contexts c).samplingCounters (bucketOf t)).2 = false) :
    (s.call t f ret).2 = some (.onInvokeTrampoline c) := by
  rw [call_eq ha.registered ha.type, hskip]
  rfl

/-- A call that its guard samples is under way. -/
theorem call_sampled {s : Interceptor} {t : BitVec 32} {f r : Word} (ret : Word) {c : Nat} (hs : RegistryInv s)
    (ha : Active s f c r) (he : Eligible s t f)
    (hsample : (samplingGuardStep (s.contexts c).samplingCounters (bucketOf t)).2 = true) :
    (s.call t f ret).2 = none ∧ Entering (s.call t f ret).1 t c := by
  have hfa : ((ticked s c t).contexts c).functionAddress = f := by
    simp only [ticked, Interceptor.setContext_contexts, Function.update_self]
    exact (hs.address f c ha.registered).1
  have hnull : ((ticked s c t).contexts c).replacementFunction ≠ 0 := by
    simp only [ticked, Interceptor.setContext_contexts, Function.update_self, ha.replaced]
    exact ha.nonnull
  have hguard : ((ticked s c t).threads t).guard = false := he.guard
  have hout : Interceptor.callingReplacement ((ticked s c t).threads t).stack f = false := he.outside
  rw [call_eq ha.registered ha.type, hsample, if_pos rfl]
  unfold Interceptor.beginInvocation
  simp only [hguard, hfa, hout, hnull, Bool.false_eq_true, ↓reduceIte, ne_eq, not_false_eq_true, decide_true,
    Bool.true_or, true_and, Entering, Interceptor.setThread_threads, Function.update_self]
  exact ⟨_, rfl⟩

/-! ## Runs

Twenty calls of a bucket make one sampled call, so a run reaches the replacement each time only if the calls come at the
right counts. -/

/-- How many of the calls of `f` so far are by threads of bucket `b`. -/
def ticks (f : Word) (b : Fin 64) (es : List InterceptorEvent) : Nat :=
  es.countP fun e => match e with
    | .call t f' _ _ => f' = f ∧ bucketOf t = b
    | _ => false

/-- The calls of a bucket so far. -/
theorem ticks_snoc (f : Word) (b : Fin 64) (es : List InterceptorEvent) (e : InterceptorEvent) :
    ticks f b (es ++ [e]) = ticks f b es + ticks f b [e] := List.countP_append

/-- The counter is their number, modulo the rate. -/
theorem tick_mod {f : Word} {k : Counters} {es : List InterceptorEvent} {e : InterceptorEvent} {b : Fin 64}
    {n : Nat} (h : (k b).toNat = (n + ticks f b es) % gumSampleRate) :
    (tick f k e b).toNat = (n + ticks f b (es ++ [e])) % gumSampleRate := by
  rw [ticks_snoc]
  cases e with
  | call t f' ret hop =>
      by_cases hf : f' = f
      · by_cases hb : b = bucketOf t
        · subst hb
          simp only [tick, hf, ↓reduceIte, ticks, List.countP_singleton, and_self, decide_true]
          exact samplingGuardStep_mod h
        · have hb' : ¬ bucketOf t = b := fun h' => hb h'.symm
          simp only [tick, hf, ↓reduceIte, samplingGuardStep_of_ne k hb, h, ticks, List.countP_singleton, hb',
            and_false, decide_false, Bool.false_eq_true, Nat.add_zero]
      · simp only [tick, hf, ↓reduceIte, h, ticks, List.countP_singleton, false_and, decide_false,
          Bool.false_eq_true, Nat.add_zero]
  | _ => exact h

/-- A replacement that is not reverted stays active, and its counters have counted the calls. -/
theorem active_run {f r : Word} {c : Nat} {es : List InterceptorEvent} {s₀ s : Interceptor}
    (hs₀ : RegistryInv s₀) (ha : Active s₀ f c r) (h : Run (interceptorSystem relocatable) s₀ es s)
    (hno : .revert f ∉ es) :
    RegistryInv s ∧ Active s f c r ∧ ∀ b, ((s.contexts c).samplingCounters b).toNat =
      (((s₀.contexts c).samplingCounters b).toNat + ticks f b es) % gumSampleRate := by
  induction h with
  | nil => exact ⟨hs₀, ha, fun b => (Nat.mod_eq_of_lt (hs₀.counters c b)).symm⟩
  | snoc hrun hstep ih =>
      obtain ⟨hs, ha', hk⟩ := ih fun h' => hno (List.mem_append_left _ h')
      obtain ⟨ha'', htick⟩ := active_step hs ha' hstep fun h' => hno (List.mem_append_right _ (by simp [h']))
      exact ⟨registryInv_step hs hstep, ha'', fun b => htick ▸ tick_mod (hk b)⟩

/-- From `s₀`, where `f` is replaced by `r`, every eligible call of `f` in the run that has been dispatched
    was dispatched to `r`: at once, or when its thread came back from the listeners. -/
def ReplacementTotal (relocatable : Word → Bool) (s₀ : Interceptor) (f r : Word) (es : List InterceptorEvent)
    (s₁ : Interceptor) : Prop :=
  ∀ pre t ret hop post s, es = pre ++ .call t f ret hop :: post →
    Run (interceptorSystem relocatable) s₀ pre s →
    Run (interceptorSystem relocatable) s (.call t f ret hop :: post) s₁ → Eligible s t f →
    ∀ h, hop.or (fate t post) = some h → h = .replacementFunction r

/-- Every eligible call of `f` in the run completes twenty calls of its bucket, those before the activation
    included. -/
def EligibleCallsSampled (relocatable : Word → Bool) (s₀ : Interceptor) (f : Word) (c : Nat)
    (es : List InterceptorEvent) (s₁ : Interceptor) : Prop :=
  ∀ pre t ret hop post s, es = pre ++ .call t f ret hop :: post →
    Run (interceptorSystem relocatable) s₀ pre s →
    Run (interceptorSystem relocatable) s (.call t f ret hop :: post) s₁ → Eligible s t f →
    20 ∣ ((s₀.contexts c).samplingCounters (bucketOf t)).toNat + ticks f (bucketOf t) pre + 1

/-- **Replacement is total on a run exactly when the guard samples each of its eligible calls.** -/
theorem replacement_total_iff {before es : List InterceptorEvent} {s₀ s₁ : Interceptor} {f r : Word} {c : Nat}
    (h₀ : Run (interceptorSystem relocatable) .init before s₀) (ha : Active s₀ f c r)
    (hno : .revert f ∉ es) :
    ReplacementTotal relocatable s₀ f r es s₁ ↔ EligibleCallsSampled relocatable s₀ f c es s₁ := by
  have hs₀ := registryInv_run h₀
  constructor
  · intro htotal pre t ret hop post s hes hpre hpost he
    obtain ⟨hs, ha', hk⟩ := active_run hs₀ ha hpre fun h' => hno (hes ▸ List.mem_append_left _ h')
    obtain ⟨s', hstep, -⟩ := hpost.cons_inv
    by_contra hdvd
    -- a call whose rank is no multiple of the rate is skipped, and goes to the original
    have hskip : (samplingGuardStep (s.contexts c).samplingCounters (bucketOf t)).2 = false := by
      rw [← Bool.not_eq_true, samplingGuardStep_sampled (hk (bucketOf t))]
      exact hdvd
    have hhop : hop = some (.onInvokeTrampoline c) := by
      cases hstep
      exact call_skipped ha' hskip
    have := htotal pre t ret hop post s hes hpre hpost he (.onInvokeTrampoline c) (by rw [hhop]; rfl)
    cases this
  · intro hsampled pre t ret hop post s hes hpre hpost he h hh
    obtain ⟨hs, ha', hk⟩ := active_run hs₀ ha hpre fun h' => hno (hes ▸ List.mem_append_left _ h')
    have hdvd := hsampled pre t ret hop post s hes hpre hpost he
    obtain ⟨s', hstep, hrun⟩ := hpost.cons_inv
    have hsample := (samplingGuardStep_sampled (hk (bucketOf t))).mpr hdvd
    have hno' : .revert f ∉ post := fun h' => hno (hes ▸ List.mem_append_right _ (List.mem_cons_of_mem _ h'))
    have hact := (active_step hs ha' hstep fun h' => by cases h').1
    have hreg := registryInv_step hs hstep
    cases hstep with
    | call t f ret =>
        obtain ⟨hnone, hent⟩ := call_sampled ret hs ha' he hsample
        rw [hnone, Option.none_or] at hh
        exact fate_replaced hreg hact hent hrun hno' hh

/-! ## The first call of a replaced function -/

/-- The function at `0x1000`, replaced by the one at `0x2000`. -/
def plainReplaced : Interceptor :=
  (Interceptor.init.replaceWithType (fun _ => true) .default 0x1000 0x2000).2

/-- A function that is replaced. -/
theorem plainReplaced_run :
    Run (interceptorSystem fun _ => true) .init [.replace .default 0x1000 0x2000 .ok] plainReplaced :=
  Run.single (InterceptorStep.replace _ _ _ _)

/-- The replacement is in force. -/
theorem plainReplaced_active : Active plainReplaced 0x1000 0 0x2000 := ⟨rfl, rfl, rfl, by decide⟩

/-- A call of it that is sampled. -/
theorem plainReplaced_call :
    InterceptorStep (fun _ => true) plainReplaced (.call 1 0x1000 0x3000 (some (.onInvokeTrampoline 0)))
      (plainReplaced.call 1 0x1000 0x3000).1 :=
  InterceptorStep.call plainReplaced 1 0x1000 0x3000

/-- The condition, for the run of that one call. -/
theorem replacement_total_plainReplaced :
    ReplacementTotal (fun _ => true) plainReplaced 0x1000 0x2000
        [.call 1 0x1000 0x3000 (some (.onInvokeTrampoline 0))] (plainReplaced.call 1 0x1000 0x3000).1 ↔
      EligibleCallsSampled (fun _ => true) plainReplaced 0x1000 0
        [.call 1 0x1000 0x3000 (some (.onInvokeTrampoline 0))] (plainReplaced.call 1 0x1000 0x3000).1 :=
  replacement_total_iff plainReplaced_run plainReplaced_active (by decide)

/-- The first call of a replaced function runs the original. -/
theorem replacement_not_total :
    ¬ ∀ (relocatable : Word → Bool) (before es : List InterceptorEvent) (s₀ s₁ : Interceptor) (f r : Word)
      (c : Nat), Run (interceptorSystem relocatable) .init before s₀ → Active s₀ f c r →
      Run (interceptorSystem relocatable) s₀ es s₁ → .revert f ∉ es →
      ReplacementTotal relocatable s₀ f r es s₁ := by
  intro h
  have hrun := Run.single (S := interceptorSystem fun _ => true) plainReplaced_call
  have htotal := h _ _ _ _ _ _ _ _ plainReplaced_run plainReplaced_active hrun (by decide)
  have hhop := htotal [] 1 0x3000 _ [] plainReplaced rfl Run.nil hrun ⟨rfl, rfl, rfl⟩
    (.onInvokeTrampoline 0) rfl
  cases hhop

end Gum
