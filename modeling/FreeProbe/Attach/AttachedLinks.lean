import FreeProbe.Attach.AttachCtx

/-!
# `Attach.AttachedLinks` — the agent's attachments follow the table

What each function of the context keeps (`Inv`) and how far an init can take a state (`Grows`), by induction on the depth
of the recursion; a link's own turn in the second pass settles it. A destroyed link stays in `instantiated_handlers`,
and no later init looks at it again.
-/

namespace AttachCtx

open Lib

variable {impls : Int → Option Nat} {table : Table} {outcomes : Outcomes}

/-- What `instantiated_handlers` may hold: a program, or what can be attached to, or a link between the two. -/
def Instance (impls : Int → Option Nat) (table : Table) : Handler → Bool
  | .prog => true
  | .perfEvent type => Attachable impls (.perfEvent type)
  | .link progId attachTargetId => table.getHandler progId = .prog ∧ Attachable impls (table.getHandler attachTargetId)
  | _ => false

/-- What can be instantiated may be. -/
theorem mayInstantiate_of_instance {handler : Handler} (h : Instance impls table handler) : MayInstantiate impls table handler := by
  cases handler with
  | unused | other => cases h
  | prog => rfl
  | perfEvent type =>
      simp only [Instance, Attachable, decide_eq_true_eq] at h
      simp only [MayInstantiate, decide_eq_true_eq]
      exact Or.inr h.2
  | link progId attachTargetId => exact h

/-! ## What every call keeps

The context has four maps over the table's ids and the attachments that the implementations hold. The invariant says how
they agree, and `Grows` what instantiating a handler does, whatever it is and whatever else it instantiates on the way.
-/

variable (impls table) in
/-- The four maps agree with each other, with the table and with the attachments there are. -/
structure Inv (w : World) : Prop where
  good     : ∀ id, w.instantiatedHandlers id → Instance impls table (table.getHandler id)
  progs    : ∀ id, w.instantiatedHandlers id → table.getHandler id = .prog → w.instantiatedProgs id
  ready    : ∀ id type, w.instantiatedHandlers id → table.getHandler id = .perfEvent type →
    w.instantiatedPerfEvents id = some ⟨true, type⟩
  events   : ∀ id event, w.instantiatedPerfEvents id = some event →
    event = ⟨false, 0⟩ ∨ w.instantiatedHandlers id ∧ table.getHandler id = .perfEvent event.attachType
  links    : ∀ id attachment, w.instantiatedAttachLinks id = some attachment →
    w.instantiatedHandlers id ∧ ∃ progId attachTargetId, table.getHandler id = .link progId attachTargetId
  live     : w.LinksAreLive
  ids      : ∀ id attachment, w.instantiatedAttachLinks id = some attachment → attachment.attachId < w.nextId attachment.impl
  distinct : ∀ id id' attachment, w.instantiatedAttachLinks id = some attachment →
    w.instantiatedAttachLinks id' = some attachment → id = id'
  /-- No program and no perf event is taken out of `instantiated_handlers` again. -/
  answered : ∀ id, (table.getHandler id).Simple → w.succeeded id → w.instantiatedHandlers id

/-- A new context has nothing. -/
theorem inv_new : Inv impls table .new where
  good id h := by cases h
  progs id h := by cases h
  ready id type h := by cases h
  events id event h := by cases h
  links id attachment h := by cases h
  live := by
    refine ⟨List.nodup_nil, fun id attachment => ?_⟩
    constructor <;> intro h <;> cases h
  ids id attachment h := by cases h
  distinct id id' attachment h := by cases h
  answered id _ h := by cases h

variable (table outcomes) in
/-- What has been tried in this pass without success fails. -/
def Tried (w : World) : Prop :=
  ∀ id, (table.getHandler id).Simple → 0 < w.attempts id → ¬ w.instantiatedHandlers id → outcomes id 0 < 0

variable (table outcomes) in
/-- What instantiating handlers does to a state. -/
structure Grows (w w' : World) : Prop where
  handlers : ∀ id, w.instantiatedHandlers id → w'.instantiatedHandlers id
  failed   : ∀ id, w.failed id → w'.failed id ∨ w'.instantiatedHandlers id
  linked   : w.Linked table → w'.Linked table
  tried    : Tried table outcomes w → Tried table outcomes w'
  fresh    : Steady table outcomes → ∀ id, (table.getHandler id).Simple → ¬ w.instantiatedHandlers id →
    w'.instantiatedHandlers id → 0 ≤ outcomes id 0

/-- No step, no growth. -/
theorem Grows.refl (w : World) : Grows table outcomes w w where
  handlers _ h := h
  failed _ h := Or.inl h
  linked h := h
  tried h := h
  fresh _ _ _ hnot h := absurd h hnot

/-- One growth after another. -/
theorem Grows.trans {w₁ w₂ w₃ : World} (h₁ : Grows table outcomes w₁ w₂) (h₂ : Grows table outcomes w₂ w₃) :
    Grows table outcomes w₁ w₃ where
  handlers id h := h₂.handlers id (h₁.handlers id h)
  failed id h := (h₁.failed id h).elim (h₂.failed id) fun hhandler => Or.inr (h₂.handlers id hhandler)
  linked h := h₂.linked (h₁.linked h)
  tried h := h₂.tried (h₁.tried h)
  fresh hsteady id hsimple hnot h := by
    by_cases hmiddle : w₂.instantiatedHandlers id
    · exact h₁.fresh hsteady id hsimple hnot hmiddle
    · exact h₂.fresh hsteady id hsimple hmiddle h

/-! ## Programs and perf events

Neither recurses. A call to the outside is counted, a failure leaves a default behind, and a success instantiates the
handler. -/

/-- An attempt that fails is counted. -/
theorem call_of_neg {w : World} {id : Nat} (hfail : outcomes id (w.attempts id) < 0) :
    w.call outcomes id =
      (outcomes id (w.attempts id), { w with attempts := Function.update w.attempts id (w.attempts id + 1) }) := by
  unfold World.call
  simp only [if_pos hfail]

/-- One that succeeds is remembered too. -/
theorem call_of_nonneg {w : World} {id : Nat} (hok : ¬ outcomes id (w.attempts id) < 0) :
    w.call outcomes id =
      (outcomes id (w.attempts id), { w with
        attempts := Function.update w.attempts id (w.attempts id + 1)
        succeeded := Function.update w.succeeded id true }) := by
  unfold World.call
  simp only [if_neg hok]

/-- A call for a program or a perf event: what a failure and what a success leave. -/
theorem grows_call {w w' : World} {id : Nat} (hsimple : (table.getHandler id).Simple) (hnot : ¬ w.instantiatedHandlers id)
    (hattempts : w'.attempts = Function.update w.attempts id (w.attempts id + 1)) (hfailed : w'.failed = w.failed)
    (hlinks : w'.instantiatedAttachLinks = w.instantiatedAttachLinks)
    (hhandlers : outcomes id (w.attempts id) < 0 ∧ w'.instantiatedHandlers = w.instantiatedHandlers ∨
      0 ≤ outcomes id (w.attempts id) ∧ w'.instantiatedHandlers = Function.update w.instantiatedHandlers id true) :
    Grows table outcomes w w' := by
  -- only the handler that was tried can have changed
  have hother {other : Nat} (hne : other ≠ id) : w'.instantiatedHandlers other = w.instantiatedHandlers other := by
    rcases hhandlers with ⟨-, h⟩ | ⟨-, h⟩
    · rw [h]
    · rw [h, Function.update_of_ne hne]
  have hmono (other : Nat) (h : w.instantiatedHandlers other) : w'.instantiatedHandlers other := by
    by_cases heq : other = id
    · exact absurd (heq ▸ h) hnot
    · rw [hother heq]
      exact h
  constructor
  case handlers => exact hmono
  case failed =>
    intro other h
    rw [hfailed]
    exact Or.inl h
  case linked =>
    intro hlinked other progId attachTargetId hlink h
    have hne : other ≠ id := by
      rintro rfl
      rcases hsimple with hprog | ⟨type, hperf⟩
      · rw [hprog] at hlink
        cases hlink
      · rw [hperf] at hlink
        cases hlink
    rw [hother hne] at h
    rw [hlinks]
    exact hlinked other progId attachTargetId hlink h
  -- an attempt that fails leaves the handler to be tried again, and one before it had failed too
  case tried =>
    intro htried other hother' hpos h
    by_cases heq : other = id
    · subst heq
      rcases hhandlers with ⟨hfail, -⟩ | ⟨-, hdone⟩
      · rcases Nat.eq_zero_or_pos (w.attempts other) with hzero | hbefore
        · rwa [hzero] at hfail
        · exact htried other hsimple hbefore hnot
      · rw [hdone, Function.update_self] at h
        exact absurd rfl h
    · rw [hattempts, Function.update_of_ne heq] at hpos
      rw [hother heq] at h
      exact htried other hother' hpos h
  case fresh =>
    intro hsteady other _ hnot' h
    by_cases heq : other = id
    · subst heq
      rcases hhandlers with ⟨-, hsame⟩ | ⟨hok, -⟩
      · rw [hsame] at h
        exact absurd h hnot'
      · by_contra hneg
        exact absurd (hsteady other hsimple (not_le.mp hneg) _) (not_lt.mpr hok)
    · rw [hother heq] at h
      exact absurd h hnot'

/-- What a call for a handler gives back: it has done what it could. -/
structure Instantiated (impls : Int → Option Nat) (table : Table) (outcomes : Outcomes) (id : Nat) (stk : List Nat)
    (w : World) (result : Int × World) : Prop where
  inv   : Inv impls table result.2
  grows : Grows table outcomes w result.2
  may   : 0 ≤ result.1 → MayInstantiate impls table (table.getHandler id)
  done  : 0 ≤ result.1 → Instance impls table (table.getHandler id) → result.2.instantiatedHandlers id
  /-- What is under way is not instantiated by it. -/
  kept  : ∀ x ∈ stk, result.2.instantiatedHandlers x → w.instantiatedHandlers x

/-- A handler that is not under way is instantiated. -/
theorem kept_update {stk : List Nat} {id : Nat} (hloop : id ∉ stk) (handlers : Nat → Bool) :
    ∀ x ∈ stk, Function.update handlers id true x → handlers x := by
  intro x hx h
  have hne : x ≠ id := fun heq => hloop (heq ▸ hx)
  rwa [Function.update_of_ne hne] at h

/-- A call for a program or a perf event that fails has not instantiated it, and fails always. -/
def FailsAlways (outcomes : Outcomes) (id : Nat) (w : World) : Prop := ¬ w.instantiatedHandlers id ∧ outcomes id 0 < 0

/-- What was tried and is not instantiated has failed, and with steady outcomes it always does. -/
theorem failsAlways_of_tried {w w' : World} {id : Nat} (hsimple : (table.getHandler id).Simple) (hgrows : Grows table outcomes w w') (htried : Tried table outcomes w)
    (hattempts : 0 < w'.attempts id) (hnot' : ¬ w'.instantiatedHandlers id) : FailsAlways outcomes id w' :=
  ⟨hnot', hgrows.tried htried id hsimple hattempts hnot'⟩

/-- A program or a perf event counts as instantiated. -/
theorem inv_addHandler {w w' : World} (hw : Inv impls table w) {id : Nat} (hsimple : (table.getHandler id).Simple)
    (hinstance : Instance impls table (table.getHandler id))
    (hhandlers : w'.instantiatedHandlers = Function.update w.instantiatedHandlers id true)
    (hprogs : ∀ other, w.instantiatedProgs other → w'.instantiatedProgs other)
    (hprog : table.getHandler id = .prog → w'.instantiatedProgs id ∧ w'.instantiatedPerfEvents = w.instantiatedPerfEvents)
    (hperf : ∀ type, table.getHandler id = .perfEvent type →
      w'.instantiatedPerfEvents = Function.update w.instantiatedPerfEvents id (some ⟨true, type⟩))
    (hlinks : w'.instantiatedAttachLinks = w.instantiatedAttachLinks) (hnext : w'.nextId = w.nextId)
    (hlive : w'.live = w.live) (hsucceeded : w'.succeeded = Function.update w.succeeded id true) : Inv impls table w' := by
  -- the handlers that were there, and the new one
  have hold {other : Nat} (h : w'.instantiatedHandlers other) (hne : other ≠ id) : w.instantiatedHandlers other := by
    rwa [hhandlers, Function.update_of_ne hne] at h
  have hnew {other : Nat} (h : w.instantiatedHandlers other) : w'.instantiatedHandlers other := by
    rw [hhandlers]
    by_cases heq : other = id
    · rw [heq, Function.update_self]
    · rwa [Function.update_of_ne heq]
  have hself : w'.instantiatedHandlers id := by rw [hhandlers, Function.update_self]
  constructor
  case good =>
    intro other h
    by_cases heq : other = id
    · rw [heq]
      exact hinstance
    · exact hw.good other (hold h heq)
  case progs =>
    intro other h hother
    by_cases heq : other = id
    · subst heq
      exact (hprog hother).1
    · exact hprogs other (hw.progs other (hold h heq) hother)
  case ready =>
    intro other type h hother
    by_cases heq : other = id
    · subst heq
      rw [hperf type hother, Function.update_self]
    · have hready := hw.ready other type (hold h heq) hother
      rcases hsimple with hprogram | ⟨type', htype⟩
      · rwa [(hprog hprogram).2]
      · rwa [hperf type' htype, Function.update_of_ne heq]
  case events =>
    intro other event hevent
    -- an event is a default one, was there, or is the new one
    have hcase : event = ⟨false, 0⟩ ∨ w.instantiatedHandlers other ∧ table.getHandler other = .perfEvent event.attachType ∨
        other = id ∧ table.getHandler other = .perfEvent event.attachType := by
      rcases hsimple with hprogram | ⟨type', htype⟩
      · rw [(hprog hprogram).2] at hevent
        exact (hw.events other event hevent).imp_right Or.inl
      · rw [hperf type' htype] at hevent
        by_cases heq : other = id
        · subst heq
          rw [Function.update_self] at hevent
          cases hevent
          exact Or.inr (Or.inr ⟨rfl, htype⟩)
        · rw [Function.update_of_ne heq] at hevent
          exact (hw.events other event hevent).imp_right Or.inl
    rcases hcase with hzero | ⟨h, hother⟩ | ⟨rfl, hother⟩
    · exact Or.inl hzero
    · exact Or.inr ⟨hnew h, hother⟩
    · exact Or.inr ⟨hself, hother⟩
  case links =>
    intro other attachment h
    rw [hlinks] at h
    obtain ⟨hhandler, hlink⟩ := hw.links other attachment h
    exact ⟨hnew hhandler, hlink⟩
  case live =>
    unfold World.LinksAreLive
    rw [hlive, hlinks]
    exact hw.live
  case ids =>
    rw [hlinks, hnext]
    exact hw.ids
  case distinct =>
    rw [hlinks]
    exact hw.distinct
  case answered =>
    intro other hother h
    by_cases heq : other = id
    · rw [heq]
      exact hself
    · rw [hsucceeded, Function.update_of_ne heq] at h
      exact hnew (hw.answered other hother h)

variable (outcomes) in
/-- A program. -/
theorem instantiateProg_spec {w : World} (hw : Inv impls table w) {id : Nat} (hprog : table.getHandler id = .prog)
    (hnot : ¬ w.instantiatedHandlers id) {stk : List Nat} (hloop : id ∉ stk) :
    Instantiated impls table outcomes id stk w (w.instantiateProgHandlerAt outcomes id) ∧
      ((w.instantiateProgHandlerAt outcomes id).1 < 0 → Tried table outcomes w →
        FailsAlways outcomes id (w.instantiateProgHandlerAt outcomes id).2) := by
  have hsimple : (table.getHandler id).Simple := Or.inl hprog
  have hprogs (other : Nat) (h : w.instantiatedProgs other) : Function.update w.instantiatedProgs id true other := by
    by_cases heq : other = id
    · rw [heq, Function.update_self]
    · rw [Function.update_of_ne heq]
      exact h
  by_cases hfail : outcomes id (w.attempts id) < 0
  · have hcall : w.instantiateProgHandlerAt outcomes id = (outcomes id (w.attempts id), { w with
        instantiatedProgs := Function.update w.instantiatedProgs id true
        attempts := Function.update w.attempts id (w.attempts id + 1) }) := by
      unfold World.instantiateProgHandlerAt
      rw [call_of_neg]
      · exact if_pos hfail
      · exact hfail
    rw [hcall]
    have hgrows : Grows table outcomes w { w with
        instantiatedProgs := Function.update w.instantiatedProgs id true
        attempts := Function.update w.attempts id (w.attempts id + 1) } :=
      grows_call hsimple hnot rfl rfl rfl (Or.inl ⟨hfail, rfl⟩)
    refine ⟨⟨?_, hgrows, fun hok => absurd hfail (not_lt.mpr hok), fun hok => absurd hfail (not_lt.mpr hok), fun _ _ h => h⟩,
      fun _ htried => ?_⟩
    · exact { hw with progs := fun other h hother => hprogs other (hw.progs other h hother) }
    · exact failsAlways_of_tried hsimple hgrows htried (by simp) hnot
  · have hcall : w.instantiateProgHandlerAt outcomes id = (0, { w with
        instantiatedHandlers := Function.update w.instantiatedHandlers id true
        instantiatedProgs := Function.update w.instantiatedProgs id true
        attempts := Function.update w.attempts id (w.attempts id + 1)
        succeeded := Function.update w.succeeded id true }) := by
      unfold World.instantiateProgHandlerAt
      rw [call_of_nonneg]
      · exact if_neg hfail
      · exact hfail
    rw [hcall]
    have hinstance : Instance impls table (table.getHandler id) := by
      rw [hprog]
      rfl
    refine ⟨⟨?_, grows_call hsimple hnot rfl rfl rfl (Or.inr ⟨not_lt.mp hfail, rfl⟩), fun _ => mayInstantiate_of_instance hinstance,
      fun _ _ => ?_, kept_update hloop _⟩, fun hneg => absurd hneg (lt_irrefl _)⟩
    · refine inv_addHandler hw hsimple hinstance rfl hprogs (fun _ => ⟨?_, rfl⟩) (fun type htype => ?_) rfl rfl rfl rfl
      · show Function.update w.instantiatedProgs id true id
        rw [Function.update_self]
      · rw [hprog] at htype
        cases htype
    · show Function.update w.instantiatedHandlers id true id
      rw [Function.update_self]

variable (outcomes) in
/-- A perf event. -/
theorem instantiatePerfEvent_spec {w : World} (hw : Inv impls table w) {id : Nat} {type : Int}
    (hperf : table.getHandler id = .perfEvent type) (hnot : ¬ w.instantiatedHandlers id) {stk : List Nat} (hloop : id ∉ stk) :
    Instantiated impls table outcomes id stk w (w.instantiatePerfEventHandlerAt impls outcomes id type) ∧
      ((w.instantiatePerfEventHandlerAt impls outcomes id type).1 < 0 → Instance impls table (table.getHandler id) →
        Tried table outcomes w → FailsAlways outcomes id (w.instantiatePerfEventHandlerAt impls outcomes id type).2) := by
  have hsimple : (table.getHandler id).Simple := Or.inr ⟨type, hperf⟩
  have hinstance : Instance impls table (table.getHandler id) ↔ type ≠ PERF_TYPE_SOFTWARE ∧ impls type ≠ none := by
    rw [hperf]
    exact decide_eq_true_iff
  have hmay : MayInstantiate impls table (table.getHandler id) ↔ type = PERF_TYPE_SOFTWARE ∨ impls type ≠ none := by
    rw [hperf]
    exact decide_eq_true_iff
  by_cases hsoftware : type = PERF_TYPE_SOFTWARE
  · rw [show w.instantiatePerfEventHandlerAt impls outcomes id type = (0, w) from if_pos hsoftware]
    exact ⟨⟨hw, .refl w, fun _ => hmay.mpr (Or.inl hsoftware), fun _ h => absurd hsoftware (hinstance.mp h).1,
      fun _ _ h => h⟩, fun hneg => absurd hneg (lt_irrefl _)⟩
  by_cases hnone : impls type = none
  · rw [show w.instantiatePerfEventHandlerAt impls outcomes id type = (-ENOENT, w) from
      (if_neg hsoftware).trans (if_pos hnone)]
    have hneg : ¬ (0 : Int) ≤ -ENOENT := by decide
    exact ⟨⟨hw, .refl w, fun hok => absurd hok hneg, fun hok => absurd hok hneg, fun _ _ h => h⟩,
      fun _ h => absurd hnone (hinstance.mp h).2⟩
  by_cases hfail : outcomes id (w.attempts id) < 0
  · have hcall : w.instantiatePerfEventHandlerAt impls outcomes id type = (outcomes id (w.attempts id), { w with
        attempts := Function.update w.attempts id (w.attempts id + 1) }) := by
      unfold World.instantiatePerfEventHandlerAt
      rw [call_of_neg hfail]
      exact (if_neg hsoftware).trans ((if_neg hnone).trans (if_pos hfail))
    rw [hcall]
    have hgrows : Grows table outcomes w { w with attempts := Function.update w.attempts id (w.attempts id + 1) } :=
      grows_call hsimple hnot rfl rfl rfl (Or.inl ⟨hfail, rfl⟩)
    refine ⟨⟨{ hw with }, hgrows, fun hok => absurd hfail (not_lt.mpr hok), fun hok => absurd hfail (not_lt.mpr hok),
      fun _ _ h => h⟩, fun _ _ htried => ?_⟩
    exact failsAlways_of_tried hsimple hgrows htried (by simp) hnot
  · have hcall : w.instantiatePerfEventHandlerAt impls outcomes id type = (0, { w with
        instantiatedHandlers := Function.update w.instantiatedHandlers id true
        instantiatedPerfEvents := Function.update w.instantiatedPerfEvents id (some ⟨true, type⟩)
        attempts := Function.update w.attempts id (w.attempts id + 1)
        succeeded := Function.update w.succeeded id true }) := by
      unfold World.instantiatePerfEventHandlerAt
      rw [call_of_nonneg hfail]
      exact (if_neg hsoftware).trans ((if_neg hnone).trans (if_neg hfail))
    rw [hcall]
    have hinst := hinstance.mpr ⟨hsoftware, hnone⟩
    refine ⟨⟨?_, grows_call hsimple hnot rfl rfl rfl (Or.inr ⟨not_lt.mp hfail, rfl⟩), fun _ => mayInstantiate_of_instance hinst,
      fun _ _ => ?_, kept_update hloop _⟩, fun hneg => absurd hneg (lt_irrefl _)⟩
    · refine inv_addHandler hw hsimple hinst rfl (fun _ h => h) (fun hprog => ?_) (fun type' htype => ?_) rfl rfl rfl rfl
      · rw [hperf] at hprog
        cases hprog
      · rw [hperf] at htype
        cases htype
        rfl
    · show Function.update w.instantiatedHandlers id true id
      rw [Function.update_self]

/-! ## Links

A link is attached when its program and its target are there. The two ways that it is not, a target that cannot be
attached to and an attach that fails, leave the maps as they are but for a default. -/

/-- The default that a link leaves for a target that is no instance. -/
theorem inv_default {w : World} (hw : Inv impls table w) {target : Nat}
    (h : ∀ type, table.getHandler target = .perfEvent type → ¬ w.instantiatedHandlers target) :
    Inv impls table { w with instantiatedPerfEvents := Function.update w.instantiatedPerfEvents target (some ⟨false, 0⟩) } where
  good := hw.good
  progs := hw.progs
  ready id type hhandler hperf := by
    have hne : id ≠ target := by
      rintro rfl
      exact h type hperf hhandler
    show Function.update w.instantiatedPerfEvents target _ id = _
    rw [Function.update_of_ne hne]
    exact hw.ready id type hhandler hperf
  events id event hevent := by
    change Function.update w.instantiatedPerfEvents target _ id = _ at hevent
    by_cases heq : id = target
    · subst heq
      rw [Function.update_self] at hevent
      cases hevent
      exact Or.inl rfl
    · rw [Function.update_of_ne heq] at hevent
      exact hw.events id event hevent
  links := hw.links
  live := hw.live
  ids := hw.ids
  distinct := hw.distinct
  answered := hw.answered

/-- A state that differs in what no part of `Grows` is about. -/
theorem grows_of_eq {w w' : World} (hhandlers : w'.instantiatedHandlers = w.instantiatedHandlers)
    (hfailed : ∀ id, w.failed id → w'.failed id) (hlinks : w'.instantiatedAttachLinks = w.instantiatedAttachLinks)
    (hattempts : ∀ id, (table.getHandler id).Simple → w'.attempts id = w.attempts id) : Grows table outcomes w w' where
  handlers id h := by rwa [hhandlers]
  failed id h := Or.inl (hfailed id h)
  linked h := by
    unfold World.Linked
    rw [hhandlers, hlinks]
    exact h
  tried h id hsimple hpos hnot := by
    rw [hattempts id hsimple] at hpos
    rw [hhandlers] at hnot
    exact h id hsimple hpos hnot
  fresh _ id _ hnot h := by
    rw [hhandlers] at h
    exact absurd h hnot

/-- A link is not simple. -/
theorem not_simple_link {handler : Handler} {progId attachTargetId : Nat} (h : handler = .link progId attachTargetId) :
    ¬ handler.Simple := by
  subst h
  rintro (h | ⟨type, h⟩) <;> cases h

/-- The state after the attach of a link succeeds. -/
def World.withAttachment (w : World) (id impl : Nat) : World :=
  { w with
    instantiatedHandlers := Function.update w.instantiatedHandlers id true
    instantiatedAttachLinks := Function.update w.instantiatedAttachLinks id (some ⟨w.nextId impl, impl⟩)
    nextId := Function.update w.nextId impl (w.nextId impl + 1)
    live := (id, ⟨w.nextId impl, impl⟩) :: w.live
    attempts := Function.update w.attempts id (w.attempts id + 1)
    failed := Function.update w.failed id false
    succeeded := Function.update w.succeeded id true }

/-- The link is an instance now. -/
theorem withAttachment_self (w : World) (id impl : Nat) : (w.withAttachment id impl).instantiatedHandlers id := by
  show Function.update w.instantiatedHandlers id true id
  rw [Function.update_self]

/-- The other handlers are what they were. -/
theorem withAttachment_ne (w : World) {id other : Nat} (impl : Nat) (hne : other ≠ id) :
    (w.withAttachment id impl).instantiatedHandlers other = w.instantiatedHandlers other :=
  Function.update_of_ne hne ..

/-- So no instance is lost. -/
theorem withAttachment_of {w : World} (id impl : Nat) {other : Nat} (h : w.instantiatedHandlers other) :
    (w.withAttachment id impl).instantiatedHandlers other := by
  by_cases heq : other = id
  · rw [heq]
    exact withAttachment_self w id impl
  · rwa [withAttachment_ne w impl heq]

/-- What the map of the links holds. -/
theorem withAttachment_links (w : World) (id impl : Nat) {other : Nat} {attachment : Attachment} :
    (w.withAttachment id impl).instantiatedAttachLinks other = some attachment ↔
      other = id ∧ attachment = ⟨w.nextId impl, impl⟩ ∨
        other ≠ id ∧ w.instantiatedAttachLinks other = some attachment := by
  show Function.update w.instantiatedAttachLinks id _ other = _ ↔ _
  by_cases heq : other = id
  · rw [heq, Function.update_self]
    simp [eq_comm]
  · rw [Function.update_of_ne heq]
    simp [heq]

/-- The attachments that are live stay so, and the new one is none of them. -/
theorem withAttachment_live {w : World} (hw : Inv impls table w) {id : Nat} (impl : Nat)
    (hnot : ¬ w.instantiatedHandlers id) : (w.withAttachment id impl).LinksAreLive := by
  have hunattached : w.instantiatedAttachLinks id = none := by
    cases h : w.instantiatedAttachLinks id with
    | none => rfl
    | some attachment => exact absurd (hw.links id attachment h).1 hnot
  have hfresh : (id, (⟨w.nextId impl, impl⟩ : Attachment)) ∉ w.live := by
    intro h
    rw [(hw.live.2 id _).mp h] at hunattached
    cases hunattached
  refine ⟨List.nodup_cons.mpr ⟨hfresh, hw.live.1⟩, fun other attachment => ?_⟩
  rw [withAttachment_links, show (w.withAttachment id impl).live = (id, ⟨w.nextId impl, impl⟩) :: w.live from rfl,
    List.mem_cons, Prod.mk.injEq, hw.live.2]
  refine or_congr_right ⟨fun h => ⟨?_, h⟩, fun h => h.2⟩
  rintro rfl
  rw [h] at hunattached
  cases hunattached

/-- **A link that is attached** keeps the maps in agreement. -/
theorem inv_withAttachment {w : World} (hw : Inv impls table w) {id progId attachTargetId : Nat} (impl : Nat)
    (hlink : table.getHandler id = .link progId attachTargetId) (hinstance : Instance impls table (table.getHandler id))
    (hnot : ¬ w.instantiatedHandlers id) : Inv impls table (w.withAttachment id impl) := by
  have hold {other : Nat} (h : (w.withAttachment id impl).instantiatedHandlers other) (hne : other ≠ id) :
      w.instantiatedHandlers other := by
    rwa [withAttachment_ne w impl hne] at h
  -- ids of attachments only grow
  have hgiven {other : Nat} (h : w.instantiatedAttachLinks other = some ⟨w.nextId impl, impl⟩) : False :=
    lt_irrefl _ (hw.ids other _ h)
  constructor
  case good =>
    intro other h
    by_cases heq : other = id
    · rw [heq]
      exact hinstance
    · exact hw.good other (hold h heq)
  -- the link is no program and no perf event
  case progs =>
    intro other h hprog
    have hne : other ≠ id := by
      rintro rfl
      rw [hlink] at hprog
      cases hprog
    exact hw.progs other (hold h hne) hprog
  case ready =>
    intro other type h hperf
    have hne : other ≠ id := by
      rintro rfl
      rw [hlink] at hperf
      cases hperf
    exact hw.ready other type (hold h hne) hperf
  case events =>
    intro other event hevent
    exact (hw.events other event hevent).imp_right fun ⟨h, hperf⟩ => ⟨withAttachment_of id impl h, hperf⟩
  case links =>
    intro other attachment h
    rcases (withAttachment_links w id impl).mp h with ⟨rfl, -⟩ | ⟨-, h⟩
    · exact ⟨withAttachment_self w other impl, progId, attachTargetId, hlink⟩
    · exact ⟨withAttachment_of id impl (hw.links other attachment h).1, (hw.links other attachment h).2⟩
  case live => exact withAttachment_live hw impl hnot
  case ids =>
    intro other attachment h
    show attachment.attachId < Function.update w.nextId impl (w.nextId impl + 1) attachment.impl
    rcases (withAttachment_links w id impl).mp h with ⟨-, rfl⟩ | ⟨-, h⟩
    · rw [Function.update_self]
      exact Nat.lt_succ_self _
    · have hlt := hw.ids other attachment h
      by_cases heq : attachment.impl = impl
      · rw [heq] at hlt
        rw [heq, Function.update_self]
        exact hlt.trans (Nat.lt_succ_self _)
      · rwa [Function.update_of_ne heq]
  -- the new attachment has an id that no other has
  case distinct =>
    intro other other' attachment h h'
    rcases (withAttachment_links w id impl).mp h with ⟨hid, hnew⟩ | ⟨-, hin⟩ <;>
      rcases (withAttachment_links w id impl).mp h' with ⟨hid', hnew'⟩ | ⟨-, hin'⟩
    · rw [hid, hid']
    · rw [hnew] at hin'
      exact (hgiven hin').elim
    · rw [hnew'] at hin
      exact (hgiven hin).elim
    · exact hw.distinct other other' attachment hin hin'
  case answered =>
    intro other hsimple h
    have hne : other ≠ id := fun heq => not_simple_link hlink (heq ▸ hsimple)
    change Function.update w.succeeded id true other at h
    rw [Function.update_of_ne hne] at h
    exact withAttachment_of id impl (hw.answered other hsimple h)

/-- And it is growth: of the programs and the perf events nothing has changed. -/
theorem grows_withAttachment (w : World) {id progId attachTargetId : Nat} (impl : Nat)
    (hlink : table.getHandler id = .link progId attachTargetId) :
    Grows table outcomes w (w.withAttachment id impl) := by
  have hother {other : Nat} (hsimple : (table.getHandler other).Simple) : other ≠ id :=
    fun heq => not_simple_link hlink (heq ▸ hsimple)
  constructor
  case handlers => exact fun other => withAttachment_of id impl
  case failed =>
    intro other h
    by_cases heq : other = id
    · exact Or.inr (heq ▸ withAttachment_self w id impl)
    · left
      show Function.update w.failed id false other
      rwa [Function.update_of_ne heq]
  case linked =>
    intro hlinked other progId' attachTargetId' hhandler h
    by_cases heq : other = id
    · rw [(withAttachment_links w id impl).mpr (Or.inl ⟨heq, rfl⟩)]
      rfl
    · rw [withAttachment_ne w impl heq] at h
      obtain ⟨attachment, hsome⟩ := Option.isSome_iff_exists.mp (hlinked other progId' attachTargetId' hhandler h)
      rw [(withAttachment_links w id impl).mpr (Or.inr ⟨heq, hsome⟩)]
      rfl
  case tried =>
    intro htried other hsimple hpos h
    change 0 < Function.update w.attempts id _ other at hpos
    rw [Function.update_of_ne (hother hsimple)] at hpos
    exact htried other hsimple hpos fun hhandler => h (withAttachment_of id impl hhandler)
  case fresh =>
    intro _ other hsimple hnot h
    rw [withAttachment_ne w impl (hother hsimple)] at h
    exact absurd h hnot

variable (outcomes) in
/-- A link whose program and target have been instantiated as far as they can be. -/
theorem instantiateBpfLink_spec (htable : table.Fits impls) {w : World} (hw : Inv impls table w)
    {id progId attachTargetId : Nat} (hmem : .link progId attachTargetId ∈ table.slots)
    (hlink : table.getHandler id = .link progId attachTargetId) (hnot : ¬ w.instantiatedHandlers id)
    (hprog : MayInstantiate impls table (table.getHandler progId))
    (hprogDone : Instance impls table (table.getHandler progId) → w.instantiatedHandlers progId)
    (htarget : MayInstantiate impls table (table.getHandler attachTargetId))
    (htargetDone : Instance impls table (table.getHandler attachTargetId) → w.instantiatedHandlers attachTargetId)
    {stk : List Nat} (hloop : id ∉ stk) :
    ∃ result, w.instantiateBpfLinkHandlerAt impls outcomes id progId attachTargetId = some result ∧
      Instantiated impls table outcomes id stk w result ∧
      (Attachable impls (table.getHandler attachTargetId) → result.2.instantiatedHandlers id ∨ result.2.failed id) := by
  have hfits := htable progId attachTargetId hmem
  by_cases hattachable : Attachable impls (table.getHandler attachTargetId)
  · -- the target is a perf event and the program a program
    rw [if_pos hattachable] at hfits
    have hprogram := hfits.resolve_right (by rw [hprog]; exact Bool.true_eq_false.mp)
    obtain ⟨type, hperf, himpl⟩ : ∃ type, table.getHandler attachTargetId = .perfEvent type ∧ impls type ≠ none := by
      cases htype : table.getHandler attachTargetId with
      | perfEvent type =>
          rw [htype] at hattachable
          exact ⟨type, rfl, (decide_eq_true_iff.mp hattachable).2⟩
      | unused | prog | link _ _ | other =>
          rw [htype] at hattachable
          cases hattachable
    obtain ⟨impl, himpl⟩ := Option.ne_none_iff_exists'.mp himpl
    have hprogDone := hw.progs progId (hprogDone (by rw [hprogram]; rfl)) hprogram
    have htargetDone := htargetDone (by rw [hperf]; rwa [hperf] at hattachable)
    have hevent := hw.ready attachTargetId type htargetDone hperf
    have hinstance : Instance impls table (table.getHandler id) := by
      rw [hlink]
      exact decide_eq_true_iff.mpr ⟨hprogram, hattachable⟩
    have hsame : Function.update w.instantiatedPerfEvents attachTargetId (some ⟨true, type⟩) = w.instantiatedPerfEvents := by
      rw [← hevent]
      exact Function.update_eq_self attachTargetId w.instantiatedPerfEvents
    unfold World.instantiateBpfLinkHandlerAt
    rw [hevent]
    simp only [Option.getD_some, himpl, hsame, hprogDone, and_self, if_true]
    by_cases hfail : outcomes id (w.attempts id) < 0
    · rw [call_of_neg hfail, if_pos hfail]
      refine ⟨_, rfl, ⟨{ hw with }, grows_of_eq rfl (fun other h => ?_) rfl (fun other hsimple => ?_),
        fun hok => absurd hfail (not_lt.mpr hok), fun hok => absurd hfail (not_lt.mpr hok), fun _ _ h => h⟩,
        fun _ => Or.inr ?_⟩
      · show Function.update w.failed id true other
        by_cases heq : other = id
        · rw [heq, Function.update_self]
        · rwa [Function.update_of_ne heq]
      · have hne : other ≠ id := fun heq => not_simple_link hlink (heq ▸ hsimple)
        exact Function.update_of_ne hne _ _
      · show Function.update w.failed id true id
        rw [Function.update_self]
    · rw [call_of_nonneg hfail, if_neg hfail]
      have hself := withAttachment_self w id impl
      exact ⟨_, rfl, ⟨inv_withAttachment hw impl hlink hinstance hnot, grows_withAttachment w impl hlink,
        fun _ => mayInstantiate_of_instance hinstance, fun _ _ => hself, kept_update hloop _⟩, fun _ => Or.inl hself⟩
  · rw [if_neg hattachable] at hfits
    have hzero : impls 0 = none := by
      refine hfits.resolve_right ?_
      rw [hprog, htarget]
      simp
    have hunready : ∀ type, table.getHandler attachTargetId = .perfEvent type → ¬ w.instantiatedHandlers attachTargetId := by
      intro type hperf hhandler
      have hgood := hw.good attachTargetId hhandler
      rw [hperf] at hgood hattachable
      exact hattachable hgood
    have hevent : (w.instantiatedPerfEvents attachTargetId).getD ⟨false, 0⟩ = ⟨false, 0⟩ := by
      cases hsome : w.instantiatedPerfEvents attachTargetId with
      | none => rfl
      | some event =>
          rcases hw.events attachTargetId event hsome with hdefault | ⟨hhandler, hperf⟩
          · exact hdefault
          · exact absurd hhandler (hunready _ hperf)
    have hneg : ¬ (0 : Int) ≤ -ENOTSUP := by decide
    unfold World.instantiateBpfLinkHandlerAt
    rw [hevent]
    simp only [hzero]
    exact ⟨_, rfl, ⟨inv_default hw hunready, grows_of_eq rfl (fun _ h => h) rfl fun _ _ => rfl, fun hok => absurd hok hneg,
      fun hok => absurd hok hneg, fun _ _ h => h⟩, fun h => absurd h hattachable⟩

/-! ## The recursion

A link instantiates its program and its target first. The stack of what is under way holds distinct ids of the table, so
the recursion ends before its fuel does. -/

/-- An id of the table has its slot. -/
theorem mem_of_getHandler {id : Nat} (hid : id < table.size) {handler : Handler} (h : table.getHandler id = handler) :
    handler ∈ table.slots := by
  rw [← h]
  unfold Table.getHandler
  rw [List.getD_eq_getElem?_getD, List.getElem?_eq_getElem hid]
  exact List.getElem_mem hid

variable (outcomes) in
/-- **A handler's instantiation** ends without a throw, whatever is under way. -/
theorem instantiateHandlerAt_spec (htable : table.Fits impls) (depth : Nat) {w : World} (hw : Inv impls table w) {id : Nat}
    {stk : List Nat} (hid : id < table.size) (hnodup : stk.Nodup) (hstk : ∀ x ∈ stk, x < table.size)
    (hdepth : table.size < stk.length + depth) :
    ∃ result, w.instantiateHandlerAt impls table outcomes depth id stk = some result ∧
      Instantiated impls table outcomes id stk w result := by
  induction depth generalizing w id stk with
  | zero =>
      -- out of fuel with distinct ids of the table on the stack: there would be more of them than slots
      have hle : stk.length ≤ table.size := by
        have hsub := (List.subperm_of_subset hnodup fun x hx => List.mem_range.mpr (hstk x hx)).length_le
        rwa [List.length_range] at hsub
      omega
  | succ depth ih =>
      unfold World.instantiateHandlerAt
      -- an instance is not instantiated again
      by_cases hhandler : w.instantiatedHandlers id
      · rw [if_pos hhandler]
        exact ⟨_, rfl, hw, .refl w, fun _ => mayInstantiate_of_instance (hw.good id hhandler), fun _ _ => hhandler, fun _ _ h => h⟩
      rw [if_neg hhandler]
      -- and what is under way is refused
      by_cases hloop : id ∈ stk
      · rw [if_pos hloop]
        have hneg : ¬ (0 : Int) ≤ -1 := by decide
        exact ⟨_, rfl, hw, .refl w, fun hok => absurd hok hneg, fun hok => absurd hok hneg, fun _ _ h => h⟩
      rw [if_neg hloop]
      have hstk' : ∀ x ∈ id :: stk, x < table.size := by
        intro x hx
        rcases List.mem_cons.mp hx with rfl | hx
        · exact hid
        · exact hstk x hx
      have hnodup' : (id :: stk).Nodup := List.nodup_cons.mpr ⟨hloop, hnodup⟩
      have hdepth' : table.size < (id :: stk).length + depth := by
        rw [List.length_cons]
        omega
      -- a link recurses into its program and its target; the others are done at once
      cases hkind : table.getHandler id with
      | unused | other =>
          refine ⟨_, rfl, hw, .refl w, fun _ => by rw [hkind]; rfl, fun _ h => ?_, fun _ _ h => h⟩
          rw [hkind] at h
          cases h
      | prog => exact ⟨_, rfl, (instantiateProg_spec outcomes hw hkind hhandler hloop).1⟩
      | perfEvent type => exact ⟨_, rfl, (instantiatePerfEvent_spec outcomes hw hkind hhandler hloop).1⟩
      | link progId attachTargetId =>
          have hmem : Handler.link progId attachTargetId ∈ table.slots := mem_of_getHandler hid hkind
          -- the program first
          obtain ⟨hprogId, htargetId⟩ := table.named progId attachTargetId hmem
          obtain ⟨prog, hprog, hprogDone⟩ := ih hw hprogId hnodup' hstk' hdepth'
          simp only [hprog, Option.bind_eq_bind, Option.bind_some]
          by_cases hfail : prog.1 < 0
          · rw [if_pos hfail]
            exact ⟨_, rfl, hprogDone.inv, hprogDone.grows, fun hok => absurd hfail (not_lt.mpr hok),
              fun hok => absurd hfail (not_lt.mpr hok), fun x hx => hprogDone.kept x (List.mem_cons_of_mem _ hx)⟩
          rw [if_neg hfail]
          -- then the target
          obtain ⟨target, htarget, htargetDone⟩ := ih hprogDone.inv htargetId hnodup' hstk' hdepth'
          simp only [htarget, Option.bind_some]
          -- what is on the stack is not instantiated by the recursion
          have hkept (x : Nat) (hx : x ∈ id :: stk) (h : target.2.instantiatedHandlers x) : w.instantiatedHandlers x :=
            hprogDone.kept x hx (htargetDone.kept x hx h)
          have hgrows := hprogDone.grows.trans htargetDone.grows
          by_cases hfail' : target.1 < 0
          · rw [if_pos hfail']
            exact ⟨_, rfl, htargetDone.inv, hgrows, fun hok => absurd hfail' (not_lt.mpr hok),
              fun hok => absurd hfail' (not_lt.mpr hok), fun x hx => hkept x (List.mem_cons_of_mem _ hx)⟩
          rw [if_neg hfail']
          -- and the link itself, which neither of them has instantiated
          have hhandler' : ¬ target.2.instantiatedHandlers id := fun h => hhandler (hkept id List.mem_cons_self h)
          obtain ⟨result, hresult, hdone, -⟩ := instantiateBpfLink_spec outcomes htable htargetDone.inv hmem hkind hhandler'
            (hprogDone.may (not_lt.mp hfail)) (fun h => htargetDone.grows.handlers progId (hprogDone.done (not_lt.mp hfail) h))
            (htargetDone.may (not_lt.mp hfail')) (htargetDone.done (not_lt.mp hfail')) hloop
          exact ⟨result, hresult, hdone.inv, hgrows.trans hdone.grows, hdone.may, hdone.done,
            fun x hx h => hkept x (List.mem_cons_of_mem _ hx) (hdone.kept x hx h)⟩

/-! ## An init

Both passes go through the table once. A pass is over for a handler when its turn is: it is instantiated, or it has been
tried and fails. -/

/-- A program, or a perf event that can be attached to, that is not under way. -/
theorem instantiateHandlerAt_simple (depth : Nat) {w : World} (hw : Inv impls table w) (htried : Tried table outcomes w)
    {id : Nat} (hsimple : (table.getHandler id).Simple) (hinstance : Instance impls table (table.getHandler id))
    {stk : List Nat} (hloop : id ∉ stk) :
    ∃ result, w.instantiateHandlerAt impls table outcomes (depth + 1) id stk = some result ∧
      Instantiated impls table outcomes id stk w result ∧ (result.1 < 0 → FailsAlways outcomes id result.2) := by
  unfold World.instantiateHandlerAt
  by_cases hhandler : w.instantiatedHandlers id
  · rw [if_pos hhandler]
    exact ⟨_, rfl, ⟨hw, .refl w, fun _ => mayInstantiate_of_instance hinstance, fun _ _ => hhandler, fun _ _ h => h⟩,
      fun hneg => absurd hneg (lt_irrefl _)⟩
  rw [if_neg hhandler, if_neg hloop]
  -- neither recurses
  rcases hsimple with hprog | ⟨type, hperf⟩
  · obtain ⟨hdone, hfails⟩ := instantiateProg_spec outcomes hw hprog hhandler hloop
    rw [hprog]
    exact ⟨_, rfl, hdone, fun hneg => hfails hneg htried⟩
  · obtain ⟨hdone, hfails⟩ := instantiatePerfEvent_spec outcomes hw hperf hhandler hloop
    rw [hperf]
    exact ⟨_, rfl, hdone, fun hneg => hfails hneg hinstance htried⟩

/-- A link's turn is over: it has been instantiated, or its attachment has failed, or its program or its target fails. -/
def Settled (outcomes : Outcomes) (id progId attachTargetId : Nat) (w : World) : Prop :=
  w.instantiatedHandlers id ∨ w.failed id ∨ FailsAlways outcomes progId w ∨ FailsAlways outcomes attachTargetId w

/-- A link that is settled stays so. -/
theorem Settled.of_grows {id progId attachTargetId : Nat} {w w' : World} (hsteady : Steady table outcomes)
    (hprog : (table.getHandler progId).Simple) (htarget : (table.getHandler attachTargetId).Simple)
    (hgrows : Grows table outcomes w w') (h : Settled outcomes id progId attachTargetId w) :
    Settled outcomes id progId attachTargetId w' := by
  have hfails {other : Nat} (hsimple : (table.getHandler other).Simple) (h : FailsAlways outcomes other w) :
      FailsAlways outcomes other w' :=
    ⟨fun hafter => absurd h.2 (not_lt.mpr (hgrows.fresh hsteady other hsimple h.1 hafter)), h.2⟩
  -- an instance stays one, a link that has failed may be one by now, and what fails always still does
  rcases h with h | h | h | h
  · exact Or.inl (hgrows.handlers id h)
  · rcases hgrows.failed id h with h | h
    · exact Or.inr (Or.inl h)
    · exact Or.inl h
  · exact Or.inr (Or.inr (Or.inl (hfails hprog h)))
  · exact Or.inr (Or.inr (Or.inr (hfails htarget h)))

/-- What a link can be attached to is not a link. -/
theorem simple_of_attachable {handler : Handler} (h : Attachable impls handler) : handler.Simple := by
  cases handler with
  | perfEvent type => exact Or.inr ⟨type, rfl⟩
  | unused | prog | link _ _ | other => cases h

/-- And it is of a type with an attach implementation. -/
theorem instance_of_attachable {handler : Handler} (h : Attachable impls handler) : Instance impls table handler := by
  cases handler with
  | perfEvent type => exact h
  | unused | prog | link _ _ | other => cases h

/-- **A link's turn** in a pass settles it. -/
theorem instantiateHandlerAt_settles (htable : table.Fits impls) (depth : Nat) {w : World} (hw : Inv impls table w)
    (htried : Tried table outcomes w) {id progId attachTargetId : Nat} (hid : id < table.size)
    (hlink : table.getHandler id = .link progId attachTargetId) (hprog : table.getHandler progId = .prog)
    (htarget : Attachable impls (table.getHandler attachTargetId)) :
    ∀ result, w.instantiateHandlerAt impls table outcomes (depth + 2) id [] = some result →
      Settled outcomes id progId attachTargetId result.2 := by
  intro result hresult
  have hprogSimple : (table.getHandler progId).Simple := Or.inl hprog
  have htargetSimple := simple_of_attachable htarget
  have hprogId : progId ∉ [id] := by
    rw [List.mem_singleton]
    rintro rfl
    exact not_simple_link hlink hprogSimple
  have htargetId : attachTargetId ∉ [id] := by
    rw [List.mem_singleton]
    rintro rfl
    exact not_simple_link hlink htargetSimple
  unfold World.instantiateHandlerAt at hresult
  by_cases hhandler : w.instantiatedHandlers id
  · rw [if_pos hhandler] at hresult
    cases hresult
    exact Or.inl hhandler
  rw [if_neg hhandler, if_neg List.not_mem_nil, hlink] at hresult
  -- the program first: where it fails, it fails again
  obtain ⟨prog, hprogResult, hprogDone, hprogFails⟩ := instantiateHandlerAt_simple depth hw htried hprogSimple
    (by rw [hprog]; rfl) hprogId
  simp only [hprogResult, Option.bind_eq_bind, Option.bind_some] at hresult
  by_cases hfail : prog.1 < 0
  · rw [if_pos hfail] at hresult
    cases hresult
    exact Or.inr (Or.inr (Or.inl (hprogFails hfail)))
  rw [if_neg hfail] at hresult
  -- then the target
  obtain ⟨target, htargetResult, htargetDone, htargetFails⟩ := instantiateHandlerAt_simple depth hprogDone.inv
    (hprogDone.grows.tried htried) htargetSimple (instance_of_attachable htarget) htargetId
  simp only [htargetResult, Option.bind_some] at hresult
  by_cases hfail' : target.1 < 0
  · rw [if_pos hfail'] at hresult
    cases hresult
    exact Or.inr (Or.inr (Or.inr (htargetFails hfail')))
  rw [if_neg hfail'] at hresult
  have hhandler' : ¬ target.2.instantiatedHandlers id := fun h =>
    hhandler (hprogDone.kept id List.mem_cons_self (htargetDone.kept id List.mem_cons_self h))
  -- both are there, so the link is attached or its attach has failed
  obtain ⟨result', hresult', -, hattached⟩ := instantiateBpfLink_spec outcomes htable htargetDone.inv (mem_of_getHandler hid hlink) hlink
    hhandler' (hprogDone.may (not_lt.mp hfail)) (fun h => htargetDone.grows.handlers progId (hprogDone.done (not_lt.mp hfail) h))
    (htargetDone.may (not_lt.mp hfail')) (htargetDone.done (not_lt.mp hfail')) List.not_mem_nil
  rw [hresult'] at hresult
  cases hresult
  rcases hattached htarget with h | h
  · exact Or.inl h
  · exact Or.inr (Or.inl h)

variable (impls table outcomes) in
/-- One turn of a pass. -/
def turn (w : World) (id : Nat) : Option World :=
  if table.isAllocated id then do return (← w.instantiateHandlerAt impls table outcomes (table.size + 1) id []).2 else some w

variable (impls table outcomes) in
/-- Every link of `ids` that can be attached is settled. -/
def AllSettled (ids : List Nat) (w : World) : Prop :=
  ∀ id progId attachTargetId, id ∈ ids → table.getHandler id = .link progId attachTargetId →
    table.getHandler progId = .prog → Attachable impls (table.getHandler attachTargetId) →
    Settled outcomes id progId attachTargetId w

variable (impls table outcomes) in
/-- Each program of `ids`, and each perf event of it that can be attached to, is instantiated unless its first call fails. -/
def AllCalled (ids : List Nat) (w : World) : Prop :=
  ∀ id ∈ ids, (table.getHandler id).Simple → Instance impls table (table.getHandler id) →
    w.instantiatedHandlers id ∨ outcomes id 0 < 0

/-- **A program's or a perf event's turn** in a pass. -/
theorem instantiateHandlerAt_called (depth : Nat) {w : World} (hw : Inv impls table w) (htried : Tried table outcomes w)
    {id : Nat} (hsimple : (table.getHandler id).Simple) (hinstance : Instance impls table (table.getHandler id)) :
    ∀ result, w.instantiateHandlerAt impls table outcomes (depth + 1) id [] = some result →
      result.2.instantiatedHandlers id ∨ outcomes id 0 < 0 := by
  intro result hresult
  obtain ⟨result', hresult', hdone, hfails⟩ := instantiateHandlerAt_simple depth hw htried hsimple hinstance List.not_mem_nil
  rw [hresult'] at hresult
  cases hresult
  by_cases hfail : result.1 < 0
  · exact Or.inr (hfails hfail).2
  · exact Or.inl (hdone.done (not_lt.mp hfail) hinstance)

/-- **One turn of the loop** in `init_attach_ctx_from_handlers`. -/
theorem turn_spec (htable : table.Fits impls) {w : World} (hw : Inv impls table w) (htried : Tried table outcomes w) {id : Nat}
    (hid : id < table.size) :
    ∃ w', turn impls table outcomes w id = some w' ∧ Inv impls table w' ∧ Grows table outcomes w w' ∧
      AllSettled impls table outcomes [id] w' ∧ AllCalled impls table outcomes [id] w' := by
  -- the fuel is more than the table has slots
  obtain ⟨depth, hdepth⟩ := Nat.exists_eq_add_of_le' (Nat.lt_of_le_of_lt (Nat.zero_le id) hid)
  unfold turn
  by_cases hallocated : table.isAllocated id
  · rw [if_pos hallocated]
    obtain ⟨result, hresult, hdone⟩ := instantiateHandlerAt_spec outcomes htable (table.size + 1) hw hid
      List.nodup_nil (fun _ h => absurd h List.not_mem_nil) (by rw [List.length_nil]; omega)
    refine ⟨result.2, by rw [hresult]; rfl, hdone.inv, hdone.grows, ?_, ?_⟩
    · intro other progId attachTargetId hmem hlink hprog htarget
      rw [List.mem_singleton] at hmem
      subst hmem
      rw [hdepth] at hresult
      exact instantiateHandlerAt_settles htable depth hw htried hid hlink hprog htarget result hresult
    · intro other hmem hsimple hinstance
      rw [List.mem_singleton] at hmem
      subst hmem
      exact instantiateHandlerAt_called _ hw htried hsimple hinstance result hresult
  · rw [if_neg hallocated]
    -- an id that is not allocated is skipped
    have hunused : table.getHandler id = .unused := by
      unfold Table.isAllocated at hallocated
      simpa using hallocated
    refine ⟨w, rfl, hw, .refl w, ?_, ?_⟩
    · intro other progId attachTargetId hmem hlink _ _
      rw [List.mem_singleton.mp hmem, hunused] at hlink
      cases hlink
    · intro other hmem _ hinstance
      rw [List.mem_singleton.mp hmem, hunused] at hinstance
      cases hinstance

/-- The turns of a pass settle one link after the other; the induction is on the slots that are left. -/
theorem turns_spec (htable : table.Fits impls) (ids : List Nat) (hids : ∀ id ∈ ids, id < table.size) {w : World}
    (hw : Inv impls table w) (htried : Tried table outcomes w) :
    ∃ w', ids.foldlM (turn impls table outcomes) w = some w' ∧ Inv impls table w' ∧ Grows table outcomes w w' ∧
      (Steady table outcomes → AllSettled impls table outcomes ids w') ∧ AllCalled impls table outcomes ids w' := by
  -- on the slots that are left: a turn settles its own link and does not unsettle those before it
  induction ids generalizing w with
  | nil =>
      refine ⟨w, rfl, hw, .refl w, fun _ id progId attachTargetId hmem => ?_, fun id hmem => ?_⟩ <;> cases hmem
  | cons id ids ih =>
      obtain ⟨middle, hmiddle, hinv, hgrows, hsettled, hcalled⟩ := turn_spec htable hw htried (hids id List.mem_cons_self)
      obtain ⟨w', hw', hinv', hgrows', hsettled', hcalled'⟩ :=
        ih (fun other hother => hids other (List.mem_cons_of_mem _ hother)) hinv (hgrows.tried htried)
      refine ⟨w', ?_, hinv', hgrows.trans hgrows', fun hsteady other progId attachTargetId hmem hlink hprog htarget => ?_,
        fun other hmem hsimple hinstance => ?_⟩
      · rw [List.foldlM_cons, hmiddle]
        exact hw'
      · rcases List.mem_cons.mp hmem with rfl | hmem
        · exact (hsettled other progId attachTargetId List.mem_cons_self hlink hprog htarget).of_grows hsteady (Or.inl hprog)
            (simple_of_attachable htarget) hgrows'
        · exact hsettled' hsteady other progId attachTargetId hmem hlink hprog htarget
      · rcases List.mem_cons.mp hmem with rfl | hmem
        · exact (hcalled other List.mem_cons_self hsimple hinstance).imp_left (hgrows'.handlers other)
        · exact hcalled' other hmem hsimple hinstance

variable (outcomes) in
/-- **A pass** ends without a throw, and settles every link. -/
theorem initPass_spec (htable : table.Fits impls) {w : World} (hw : Inv impls table w) :
    ∃ w', w.initPass impls table outcomes = some w' ∧ Inv impls table w' ∧ (w.Linked table → w'.Linked table) ∧
      (∀ id, w.instantiatedHandlers id → w'.instantiatedHandlers id) ∧
      (Steady table outcomes → AllSettled impls table outcomes (List.range table.size) w') ∧
      AllCalled impls table outcomes (List.range table.size) w' := by
  have hinv : Inv impls table { w with attempts := fun _ => 0 } := { hw with }
  have htried : Tried table outcomes { w with attempts := fun _ => 0 } := fun id _ hpos => absurd hpos (lt_irrefl _)
  obtain ⟨w', hw', hinv', hgrows, hsettled, hcalled⟩ := turns_spec htable (List.range table.size)
    (fun id hid => List.mem_range.mp hid) hinv htried
  exact ⟨w', hw', hinv', hgrows.linked, hgrows.handlers, hsettled, hcalled⟩

/-! ## The live attachments of a link

The property counts attachments, and the maps have at most one for a link. -/

/-- A link with an attachment has one that is live. -/
theorem length_liveOf_of_some {w : World} (hlive : w.LinksAreLive) {id : Nat} {attachment : Attachment}
    (h : w.instantiatedAttachLinks id = some attachment) : (w.liveOf id).length = 1 := by
  -- the live attachments are distinct, and those of this link are its attachment
  have hperm : (w.liveOf id).Perm [(id, attachment)] := by
    unfold World.liveOf
    rw [List.perm_ext_iff_of_nodup (hlive.1.filter _) (List.nodup_singleton _)]
    rintro ⟨other, attachment'⟩
    rw [List.mem_filter, hlive.2, List.mem_singleton, Prod.mk.injEq, decide_eq_true_eq]
    constructor
    · rintro ⟨hsome, rfl⟩
      rw [h] at hsome
      exact ⟨rfl, (Option.some.inj hsome).symm⟩
    · rintro ⟨rfl, rfl⟩
      exact ⟨h, rfl⟩
  exact hperm.length_eq

/-- A link without one has none. -/
theorem length_liveOf_of_none {w : World} (hlive : w.LinksAreLive) {id : Nat} (h : w.instantiatedAttachLinks id = none) :
    (w.liveOf id).length = 0 := by
  rw [List.length_eq_zero_iff]
  refine List.filter_eq_nil_iff.mpr fun l hl heq => ?_
  obtain ⟨other, attachment⟩ := l
  have hother := (hlive.2 other attachment).mp hl
  rw [show other = id from decide_eq_true_iff.mp heq, h] at hother
  cases hother

/-- The loop comes to each id in use. -/
theorem mem_range_of_used {id : Nat} (h : table.getHandler id ≠ .unused) : id ∈ List.range table.size := by
  rw [List.mem_range]
  by_contra hge
  refine h ?_
  unfold Table.getHandler
  rw [List.getD_eq_getElem?_getD, List.getElem?_eq_none (not_lt.mp hge), Option.getD_none]

/-- A program or a perf event that could be instantiated has been, when both passes are over. -/
theorem instantiated_of_instantiable {first second : Outcomes} {w : World} (hw : Inv impls table w)
    (hfirst : AllCalled impls table first (List.range table.size) w)
    (hsecond : AllCalled impls table second (List.range table.size) w) {id : Nat}
    (hsimple : (table.getHandler id).Simple) (hinstance : Instance impls table (table.getHandler id))
    (h : w.Instantiable first second id) : w.instantiatedHandlers id := by
  have hid : id ∈ List.range table.size := mem_range_of_used (by rintro hunused; rw [hunused] at hinstance; cases hinstance)
  rcases h with hsucceeded | hok | hok
  · exact hw.answered id hsimple hsucceeded
  · exact (hfirst id hid hsimple hinstance).resolve_right (not_lt.mpr hok)
  · exact (hsecond id hid hsimple hinstance).resolve_right (not_lt.mpr hok)

/-- What a settled table says of the links that are ready. -/
theorem attached_of_settled {first second : Outcomes} {w : World} (hw : Inv impls table w) (hlinked : w.Linked table)
    (hfirst : AllCalled impls table first (List.range table.size) w)
    (hsecond : AllCalled impls table second (List.range table.size) w)
    (hsettled : AllSettled impls table second (List.range table.size) w) : w.Attached impls table first second := by
  intro id progId attachTargetId hlink ⟨hprog, hprogReady, htarget, htargetReady⟩
  have hprogDone := instantiated_of_instantiable hw hfirst hsecond (Or.inl hprog) (by rw [hprog]; rfl) hprogReady
  have htargetDone := instantiated_of_instantiable hw hfirst hsecond (simple_of_attachable htarget)
    (instance_of_attachable htarget) htargetReady
  have hid : id ∈ List.range table.size := mem_range_of_used (by rw [hlink]; exact Handler.noConfusion)
  -- attached, failed to attach, or one of the two failed to be read, which they did not
  rcases hsettled id progId attachTargetId hid hlink hprog htarget with h | h | h | h
  · obtain ⟨attachment, hsome⟩ := Option.isSome_iff_exists.mp (hlinked id progId attachTargetId hlink h)
    exact Or.inl (length_liveOf_of_some hw.live hsome)
  · cases hlinks : w.instantiatedAttachLinks id with
    | none => exact Or.inr ⟨length_liveOf_of_none hw.live hlinks, h⟩
    | some attachment => exact Or.inl (length_liveOf_of_some hw.live hlinks)
  · exact absurd hprogDone h.1
  · exact absurd htargetDone h.1

/-! ## Destroying

A link that is destroyed keeps its place in `instantiated_handlers`; it is the attachment that goes. -/

/-- **`destroy_instantiated_attach_link`** takes one attachment away, if its `detach` succeeds. -/
theorem destroyInstantiatedAttachLink_inv {w : World} (hw : Inv impls table w) (linkId : Nat) (ret : Int) :
    Inv impls table (w.destroyInstantiatedAttachLink linkId ret).2 := by
  unfold World.destroyInstantiatedAttachLink
  cases hlink : w.instantiatedAttachLinks linkId with
  | none => exact hw
  | some attachment =>
      -- an attachment whose `detach` fails is kept
      by_cases hfail : ret < 0
      · simp only [if_pos hfail]
        exact hw
      simp only [if_neg hfail]
      have hlinks {other : Nat} {attachment' : Attachment} :
          Function.update w.instantiatedAttachLinks linkId none other = some attachment' ↔
            other ≠ linkId ∧ w.instantiatedAttachLinks other = some attachment' := by
        by_cases heq : other = linkId
        · rw [heq, Function.update_self]
          simp
        · rw [Function.update_of_ne heq]
          simp [heq]
      constructor
      case good => exact hw.good
      case progs => exact hw.progs
      case ready => exact hw.ready
      case events => exact hw.events
      case links => exact fun other attachment' h => hw.links other attachment' (hlinks.mp h).2
      -- the attachment that is detached is that of this link only
      case live =>
        refine ⟨hw.live.1.filter _, fun other attachment' => ?_⟩
        rw [hlinks, List.mem_filter, hw.live.2, and_comm]
        refine and_congr_left fun hother => ?_
        rw [decide_eq_true_eq]
        constructor
        · rintro hne rfl
          rw [hlink] at hother
          exact hne (Option.some.inj hother).symm
        · rintro hne rfl
          exact hne (hw.distinct other linkId attachment' hother hlink)
      case ids => exact fun other attachment' h => hw.ids other attachment' (hlinks.mp h).2
      case distinct =>
        intro other other' attachment' h h'
        exact hw.distinct other other' attachment' (hlinks.mp h).2 (hlinks.mp h').2
      case answered => exact hw.answered

/-- The loop over the links keeps the invariant. -/
theorem destroyLinks_inv (rets : Nat → Int) (ks : List Nat) {w : World} (hw : Inv impls table w) :
    Inv impls table (w.destroyLinks rets ks).2 := by
  induction ks generalizing w with
  | nil => exact hw
  | cons k ks ih =>
      have hk := destroyInstantiatedAttachLink_inv hw k (rets k)
      unfold World.destroyLinks
      by_cases hfail : (w.destroyInstantiatedAttachLink k (rets k)).1 < 0
      · simp only [if_pos hfail]
        exact hk
      · simp only [if_neg hfail]
        exact ih hk

/-! ## The calls

One call keeps the invariant, and an init attaches what is ready. A run of calls is by induction. -/

/-- **One call** does not throw and keeps the maps in agreement; an init attaches what is ready. -/
theorem apply_spec (htable : table.Fits impls) {w : World} (hw : Inv impls table w) (op : Op) :
    ∃ next, w.apply impls table op = some next ∧ Inv impls table next.2 ∧
      match op with
      | .init first second => w.Linked table → Steady table second → next.2.Attached impls table first second
      | _ => True := by
  cases op with
  | init first second =>
      have hinv : Inv impls table { w with failed := fun _ => false } := { hw with }
      obtain ⟨middle, hmiddle, hinv₁, hlinked₁, -, -, hfirst⟩ := initPass_spec first htable hinv
      obtain ⟨w', hw', hinv₂, hlinked₂, hhandlers, hsettled, hsecond⟩ := initPass_spec second htable hinv₁
      -- what the first pass has instantiated stays so in the second
      have hfirst' : AllCalled impls table first (List.range table.size) w' := fun id hid hsimple hinstance =>
        (hfirst id hid hsimple hinstance).imp_left (hhandlers id)
      refine ⟨(0, w'), ?_, hinv₂, fun hlinked hsteady => ?_⟩
      · show (World.initAttachCtxFromHandlers impls table first second w).bind _ = _
        unfold World.initAttachCtxFromHandlers
        rw [hmiddle]
        show (World.initPass impls table second middle).bind _ = _
        rw [hw']
        rfl
      · exact attached_of_settled hinv₂ (hlinked₂ (hlinked₁ hlinked)) hfirst' hsecond (hsettled hsteady)
  | destroy linkId ret => exact ⟨_, rfl, destroyInstantiatedAttachLink_inv hw linkId ret, trivial⟩
  | destroyAll rets => exact ⟨_, rfl, destroyLinks_inv rets _ hw, trivial⟩

end AttachCtx
