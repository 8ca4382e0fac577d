import Mathlib.Data.List.Basic
import ScanDigest.Digest.Reduction
import ScanDigest.Proofs.KeyByKey

/-!
# The run of one policy key

A `Mention` is an action of a record on one of its rules; `mentionsOf k rs` are those of a key, in
the order of the batch and of the rules within a record. The `Standing` of a key is its state with
the event stored under it, and `Standing.take` is what a mention does to it. The board of a batch
has under each key the standing that the mentions of that key lead to (`standing_policyBoard`), and
that is decided by the last violation among them or, without one, by the first mention
(`Standing.takeAll_violation`, `Standing.takeAll_cancellation`). Its state and its event never get
out of step (`inStep_policyBoard`), so each of them tells the other (`states_tell_events`).
-/

set_option autoImplicit false

namespace ScanDigest

open Std

/-- An action of a record on one of its rules. -/
structure Mention where
  action : PolicyAction
  notice : PolicyNotice
  rule : PolicyRule
  deriving DecidableEq, Repr

namespace Mention

def key (m : Mention) : EventKey := m.notice.key m.rule

/-- The event that a mention makes. -/
def event (m : Mention) : Event := m.notice.event m.action m.rule

/-- An event that shows the names of a mention. -/
def shown (m : Mention) (category : Category) : Event where
  key := m.key
  category := category
  project := ⟨m.notice.component.projectName, m.notice.component.projectVersionName,
    m.notice.component.projectVersionUrl⟩
  dataset := [⟨"RULE", m.rule.name⟩, ⟨"COMPONENT", m.notice.component.name⟩,
    ⟨"", m.notice.component.versionName⟩]

theorem event_eq (m : Mention) : m.event = m.shown m.action.category := rfl

/-- Where there is a violation, there is a last one. -/
theorem exists_last_violation {ms : List Mention} (h : ∃ m ∈ ms, m.action = .violate) :
    ∃ before last after, ms = before ++ last :: after ∧ last.action = .violate ∧
      ∀ m ∈ after, m.action ≠ .violate := by
  induction ms with
  | nil => obtain ⟨m, hm, -⟩ := h; cases hm
  | cons m ms ih =>
    by_cases hms : ∃ n ∈ ms, n.action = .violate
    · obtain ⟨before, last, after, rfl, hlast, hafter⟩ := ih hms
      exact ⟨m :: before, last, after, rfl, hlast, hafter⟩
    · have hm : m.action = .violate := by
        obtain ⟨n, hn, hv⟩ := h
        rcases List.mem_cons.1 hn with rfl | hn
        · exact hv
        · exact absurd ⟨n, hn, hv⟩ hms
      exact ⟨[], m, ms, rfl, hm, fun n hn hv => hms ⟨n, hn, hv⟩⟩

end Mention

/-- The mentions of a record, in the order of its rules. -/
def Record.mentions : Record → List Mention
  | .policy action n => n.rules.map fun rule => ⟨action, n, rule⟩
  | .delta _ => []
  | .other => []

/-- The mentions of a key, in the order of the batch. -/
def mentionsOf (k : EventKey) (rs : List Record) : List Mention :=
  (rs.flatMap Record.mentions).filter fun m => m.key = k

/-- The category of the event that a state goes with; a violation that was cancelled has none. -/
def PolicyState.category? : PolicyState → Option Category
  | violated => some .violation
  | overridden => some .override
  | cleared => some .cleared
  | cancelled => none

/-- A key as a board has it: where it stands, and the event that is stored. -/
structure Standing where
  state : Option PolicyState
  event : Option Event
  deriving DecidableEq, Repr

namespace Standing

/-- A key that no record has named. -/
def unnamed : Standing := ⟨none, none⟩

/-- What a mention of the key does. -/
def take (s : Standing) (m : Mention) : Standing :=
  match PolicyBoard.effect m.action s.state with
  | .publish => ⟨some m.action.state, some m.event⟩
  | .withdraw => ⟨some .cancelled, none⟩
  | .ignore => s

/-- What mentions of the key do, one after the other. -/
def takeAll (s : Standing) (ms : List Mention) : Standing := ms.foldl take s

theorem takeAll_append (s : Standing) (ms ns : List Mention) :
    s.takeAll (ms ++ ns) = (s.takeAll ms).takeAll ns := List.foldl_append

/-- The key was named, and is not violated: only a violation counts. -/
def Settled (s : Standing) : Prop := s.state ≠ none ∧ s.state ≠ some .violated

/-- A violation counts in every state. -/
theorem take_violation (s : Standing) {m : Mention} (h : m.action = .violate) :
    s.take m = ⟨some .violated, some m.event⟩ := by
  simp only [take, h, PolicyBoard.effect, PolicyAction.state]

/-- The first mention counts, whatever it is. -/
theorem take_unnamed (m : Mention) : unnamed.take m = ⟨some m.action.state, some m.event⟩ := by
  obtain ⟨action, n, rule⟩ := m
  cases action <;> rfl

/-- An override and a clearance do the same wherever a key has been named. -/
theorem effect_cancel {a : PolicyAction} (h : a ≠ .violate) (s : PolicyState) :
    PolicyBoard.effect a (some s) = if s = .violated then .withdraw else .ignore := by
  cases a with
  | violate => exact absurd rfl h
  | override => cases s <;> rfl
  | clear => cases s <;> rfl

theorem take_settled {s : Standing} (hs : s.Settled) {m : Mention} (h : m.action ≠ .violate) :
    s.take m = s := by
  obtain ⟨state, event⟩ := s
  obtain ⟨hnone, hviolated⟩ := hs
  cases state with
  | none => exact absurd rfl hnone
  | some state =>
    have hne : state ≠ .violated := fun he => hviolated (congrArg some he)
    simp only [take, effect_cancel h, if_neg hne]

theorem takeAll_settled {s : Standing} (hs : s.Settled) {ms : List Mention}
    (h : ∀ m ∈ ms, m.action ≠ .violate) : s.takeAll ms = s := by
  induction ms with
  | nil => rfl
  | cons m ms ih =>
    rw [takeAll, List.foldl_cons, take_settled hs (h m List.mem_cons_self)]
    exact ih fun n hn => h n (List.mem_cons_of_mem _ hn)

/-- The first cancellation after a violation takes the event away, and no later one brings it
back. -/
theorem takeAll_violation (s : Standing) (before : List Mention) {last : Mention}
    {after : List Mention} (hlast : last.action = .violate)
    (hafter : ∀ m ∈ after, m.action ≠ .violate) :
    s.takeAll (before ++ last :: after) =
      if after = [] then ⟨some .violated, some last.event⟩ else ⟨some .cancelled, none⟩ := by
  rw [takeAll_append, takeAll, List.foldl_cons, take_violation _ hlast]
  cases after with
  | nil => rfl
  | cons m ms =>
    have hm : take ⟨some .violated, some last.event⟩ m = ⟨some .cancelled, none⟩ := by
      simp only [take, effect_cancel (hafter m List.mem_cons_self), if_true]
    rw [List.foldl_cons, hm, if_neg (List.cons_ne_nil _ _)]
    have hs : Settled ⟨some .cancelled, none⟩ := ⟨by decide, by decide⟩
    exact takeAll_settled hs fun n hn => hafter n (List.mem_cons_of_mem _ hn)

/-- Without a violation the first mention counts, and no other. -/
theorem takeAll_cancellation {first : Mention} {rest : List Mention}
    (h : ∀ m ∈ first :: rest, m.action ≠ .violate) :
    unnamed.takeAll (first :: rest) = ⟨some first.action.state, some first.event⟩ := by
  have hfirst := h first List.mem_cons_self
  rw [takeAll, List.foldl_cons, take_unnamed]
  refine takeAll_settled ⟨Option.some_ne_none _, fun hv => ?_⟩ fun m hm =>
    h m (List.mem_cons_of_mem _ hm)
  cases ha : first.action with
  | violate => exact hfirst ha
  | override => rw [ha] at hv; cases hv
  | clear => rw [ha] at hv; cases hv

/-- A mention names the key, and nothing takes that back. -/
theorem state_take_ne_none {s : Standing} (h : s.state ≠ none) (m : Mention) :
    (s.take m).state ≠ none := by
  rw [take]
  split
  · exact Option.some_ne_none _
  · exact Option.some_ne_none _
  · exact h

theorem state_takeAll_ne_none {s : Standing} (h : s.state ≠ none) (ms : List Mention) :
    (s.takeAll ms).state ≠ none := by
  induction ms generalizing s with
  | nil => exact h
  | cons m ms ih => exact ih (state_take_ne_none h m)

/-! ## States and events -/

/-- The state says whether there is an event, and of which category. -/
def InStep (s : Standing) : Prop := s.event.map Event.category = s.state.bind PolicyState.category?

theorem inStep_unnamed : unnamed.InStep := rfl

theorem InStep.take {s : Standing} (h : s.InStep) (m : Mention) : (s.take m).InStep := by
  rw [Standing.take]
  split
  · obtain ⟨action, n, rule⟩ := m
    cases action <;> rfl
  · rfl
  · exact h

theorem InStep.takeAll {s : Standing} (h : s.InStep) (ms : List Mention) :
    (s.takeAll ms).InStep := by
  induction ms generalizing s with
  | nil => exact h
  | cons m ms ih => exact ih (h.take m)

/-- There is an event of the category of an action where the action left its state. -/
theorem InStep.category_iff {s : Standing} (h : s.InStep) (a : PolicyAction) :
    (∃ e, s.event = some e ∧ e.category = a.category) ↔ s.state = some a.state := by
  rw [← Option.map_eq_some_iff, h]
  cases s.state with
  | none => simp
  | some state => cases state <;> cases a <;> decide

/-- There is no event where the key was not named, or a violation was cancelled. -/
theorem InStep.event_eq_none_iff {s : Standing} (h : s.InStep) :
    s.event = none ↔ s.state = some .cancelled ∨ s.state = none := by
  rw [← Option.map_eq_none_iff (f := Event.category), h]
  cases s.state with
  | none => simp
  | some state => cases state <;> decide

end Standing

/-! ## Boards -/

namespace PolicyBoard

def standing (b : PolicyBoard) (k : EventKey) : Standing := ⟨b.state? k, b.store.get? k⟩

theorem standing_ofStore (k : EventKey) : (ofStore ∅).standing k = .unnamed := by
  have hstate : (ofStore ∅).state? k = none := ExtTreeMap.getElem?_empty
  have hevent : (∅ : Store).get? k = none := Store.get?_empty k
  rw [standing, hstate, ofStore, hevent, Standing.unnamed]

/-- What a mention does to a board. -/
def take (b : PolicyBoard) (m : Mention) : PolicyBoard := applyRule m.action m.notice b m.rule

theorem apply_eq (b : PolicyBoard) (r : Record) : b.apply r = r.mentions.foldl take b := by
  cases r with
  | policy action n => rw [apply, Record.mentions, List.foldl_map]; rfl
  | delta d => rfl
  | other => rfl

/-- A mention changes the standing of its own key only. -/
theorem standing_take (b : PolicyBoard) (m : Mention) (k : EventKey) :
    (b.take m).standing k =
      if decide (m.key = k) then (b.standing k).take m else b.standing k := by
  obtain ⟨action, n, rule⟩ := m
  simp only [take, applyRule, Standing.take, standing, Mention.key, Mention.event]
  by_cases h : n.key rule = k
  · subst h
    cases effect action (b.state? (n.key rule)) <;>
      simp [state?, Store.get?_put, Store.get?_remove, PolicyNotice.event]
  · cases effect action (b.state? (n.key rule)) <;>
      simp [state?, Store.get?_put, Store.get?_remove, PolicyNotice.event, h,
        ExtTreeMap.getElem?_insert]

theorem ext_standing {a b : PolicyBoard} (h : ∀ k, a.standing k = b.standing k) : a = b := by
  obtain ⟨states, store⟩ := a
  obtain ⟨states', store'⟩ := b
  have hstates : states = states' :=
    ExtTreeMap.ext_getElem? fun {k} => congrArg Standing.state (h k)
  have hstore : store = store' := Store.ext fun k => congrArg Standing.event (h k)
  rw [hstates, hstore]

end PolicyBoard

/-- What records do to a key comes from their mentions of it. -/
theorem PolicyBoard.standing_foldl_apply (b : PolicyBoard) (rs : List Record) (k : EventKey) :
    (rs.foldl apply b).standing k = (b.standing k).takeAll (mentionsOf k rs) := by
  have hmentions : rs.foldl apply b = (rs.flatMap Record.mentions).foldl take b := by
    rw [List.foldl_flatMap]
    exact List.foldl_ext _ _ _ fun b r _ => b.apply_eq r
  rw [hmentions, foldl_view (standing · k) Standing.take (standing_take · · k)]
  rfl

/-- The standing of a key comes from its own mentions. -/
theorem standing_policyBoard (rs : List Record) (k : EventKey) :
    (policyBoard rs).standing k = Standing.unnamed.takeAll (mentionsOf k rs) := by
  rw [policyBoard, PolicyBoard.standing_foldl_apply, PolicyBoard.standing_ofStore]

/-- States and stored events do not get out of step. -/
theorem inStep_policyBoard (rs : List Record) (k : EventKey) :
    ((policyBoard rs).standing k).InStep := by
  rw [standing_policyBoard]
  exact Standing.inStep_unnamed.takeAll _

/-- **State and event of a key tell each other**, whatever records were applied, and a key that was
named stays named. -/
theorem states_tell_events (rs : List Record) (k : EventKey) :
    let b := policyBoard rs
    ((∃ e, b.store.get? k = some e ∧ e.category = .violation) ↔ b.state? k = some .violated) ∧
    ((∃ e, b.store.get? k = some e ∧ e.category = .override) ↔ b.state? k = some .overridden) ∧
    ((∃ e, b.store.get? k = some e ∧ e.category = .cleared) ↔ b.state? k = some .cleared) ∧
    (b.store.get? k = none ↔ b.state? k = some .cancelled ∨ b.state? k = none) ∧
    ∀ more, b.state? k ≠ none → (policyBoard (rs ++ more)).state? k ≠ none := by
  intro b
  have h : (b.standing k).InStep := inStep_policyBoard rs k
  refine ⟨h.category_iff .violate, h.category_iff .override, h.category_iff .clear,
    h.event_eq_none_iff, fun more hnamed => ?_⟩
  have hmore : (policyBoard (rs ++ more)).standing k =
      (b.standing k).takeAll (mentionsOf k more) := by
    rw [policyBoard, List.foldl_append]
    exact b.standing_foldl_apply more k
  have hstays := Standing.state_takeAll_ne_none (s := b.standing k) hnamed (mentionsOf k more)
  rw [← hmore] at hstays
  exact hstays

/-- A violation that is cleared leaves its key named and without an event. -/
theorem states_tell_events_cancelled :
    let c : Component := ⟨"p", "1", "c", "2", "/pv/1", "/cv/1"⟩
    let notice : PolicyNotice := ⟨"2026-02-10T00:00:00Z", c, [⟨"A", "/r"⟩]⟩
    let k : EventKey := .ofRule "/pv/1" "/cv/1" "/r"
    let b := policyBoard ([.policy .violate notice] ++ [.policy .clear notice])
    (policyBoard [.policy .violate notice]).state? k ≠ none ∧
      b.state? k ≠ none ∧ b.store.get? k = none := by
  intro c notice k b
  have hone : mentionsOf k [.policy .violate notice] = [⟨.violate, notice, ⟨"A", "/r"⟩⟩] := by
    simp [mentionsOf, Record.mentions, notice, Mention.key, PolicyNotice.key, c, k]
  have htwo : mentionsOf k ([.policy .violate notice] ++ [.policy .clear notice]) =
      [⟨.violate, notice, ⟨"A", "/r"⟩⟩, ⟨.clear, notice, ⟨"A", "/r"⟩⟩] := by
    simp [mentionsOf, Record.mentions, notice, Mention.key, PolicyNotice.key, c, k]
  have hnamed : (policyBoard [.policy .violate notice]).state? k ≠ none := by
    have hstate := congrArg Standing.state (standing_policyBoard [.policy .violate notice] k)
    rw [hone] at hstate
    exact fun hnone => by cases hnone.symm.trans hstate
  have hcancelled : b.state? k = some .cancelled := by
    have hstate := congrArg Standing.state
      (standing_policyBoard ([.policy .violate notice] ++ [.policy .clear notice]) k)
    rwa [htwo] at hstate
  obtain ⟨-, -, -, -, hstays⟩ := states_tell_events [.policy .violate notice] k
  obtain ⟨-, -, -, hevent, -⟩ :=
    states_tell_events ([.policy .violate notice] ++ [.policy .clear notice]) k
  exact ⟨hnamed, hstays _ hnamed, hevent.2 (.inl hcancelled)⟩

end ScanDigest
