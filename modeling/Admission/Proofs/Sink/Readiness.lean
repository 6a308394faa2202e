import Admission.Sink.Leaf
import Mathlib.Data.List.Forall2

/-! # Who is asked before an event is handed over

A sink that is told an event is first asked whether it is ready. A leaf that stands alone answers for
itself and gets the event only if it is ready. A pair answers for its members that it is ready and
hands them the event unasked: every leaf below a pair gets every event once, whatever it would have
answered and whatever its siblings make of the event. -/

namespace Admission

variable {σ : Type}

/-! ## What is done with a leaf -/

/-- What is done with a leaf. -/
inductive Sink.Touch
  /-- It is asked whether it is ready. -/
  | asked (answer : Readiness)
  | handed (event : Event)
deriving DecidableEq

/-- The same conduct of leaves that note down what is done with them. -/
def Conduct.noting (c : Conduct σ) : Conduct (σ × List Sink.Touch) where
  poll leaf :=
    let (answer, state) := c.poll leaf.1
    (answer, state, leaf.2 ++ [.asked answer])
  take event leaf :=
    let (result, state) := c.take event leaf.1
    (result, state, leaf.2 ++ [.handed event])

namespace Sink

variable {c : Conduct σ} {state : σ} {event : Event}

/-- Tells events one after another. -/
def emitAll (c : Conduct σ) (events : List Event) (s : Sink σ) : Sink σ :=
  events.foldl (fun s event => s.emit c event) s

@[simp] theorem emitAll_nil (s : Sink σ) : s.emitAll c [] = s := rfl

@[simp] theorem emitAll_cons (s : Sink σ) (events : List Event) :
    s.emitAll c (event :: events) = (s.emit c event).emitAll c events := rfl

/-- The sink with nothing noted down yet. -/
def blank (s : Sink σ) : Sink (σ × List Touch) := s.map fun state => (state, [])

/-- A leaf was asked before each event, and got it if and only if it answered that it is ready. -/
inductive Served : List Event → List Touch → Prop
  | nil : Served [] []
  | ready (event : Event) {events : List Event} {touches : List Touch} :
      Served events touches → Served (event :: events) (.asked .ready :: .handed event :: touches)
  | unready (event : Event) {answer : Readiness} {events : List Event} {touches : List Touch} :
      answer ≠ .ready → Served events touches → Served (event :: events) (.asked answer :: touches)

/-- Whatever events the sink is told, each of its leaves is asked first and gets those that it is
ready for. -/
def Heeds (c : Conduct σ) (s : Sink σ) : Prop :=
  ∀ events, ∀ leaf ∈ (s.blank.emitAll c.noting events).leaves, Served events leaf.2

/-! ## One event -/

theorem emit_leaf_of_ready (h : (c.poll state).1 = .ready) :
    (leaf state).emit c event = leaf (c.take event (c.poll state).2).2 := by
  simp only [emit, deliver, poll, h, take]
  cases (c.take event (c.poll state).2).1 with
  | ok => rfl
  | error => rfl

theorem emit_leaf_of_ne (h : (c.poll state).1 ≠ .ready) :
    (leaf state).emit c event = leaf (c.poll state).2 := by
  simp only [emit, deliver, poll]
  cases hanswer : (c.poll state).1 with
  | ready => exact absurd hanswer h
  | failed => rfl
  | pending => rfl

/-- A pair hands the event on without a question. -/
theorem emit_both (a b : Sink σ) :
    (both a b).emit c event = both (a.take c event).2 (b.take c event).2 := by
  simp only [emit, deliver, poll, take]
  cases (a.take c event).1 with
  | ok => 
      cases (b.take c event).1 with
      | ok => rfl
      | error => rfl
  | error => rfl

/-- Handing over an event hands it to every leaf once, whatever the others make of it. -/
theorem leaves_take (s : Sink σ) :
    (s.take c event).2.leaves = s.leaves.map fun state => (c.take event state).2 := by
  induction s with
  | leaf state => rfl
  | both a b iha ihb => simp only [take, leaves, List.map_append, iha, ihb]

/-! ## Noting things down changes nothing -/

theorem take_noting (s : Sink (σ × List Touch)) :
    (s.take c.noting event).2.map Prod.fst = ((s.map Prod.fst).take c event).2 := by
  induction s with
  | leaf state => rfl
  | both a b iha ihb => simp only [map, take, iha, ihb]

theorem emit_noting (s : Sink (σ × List Touch)) :
    (s.emit c.noting event).map Prod.fst = (s.map Prod.fst).emit c event := by
  cases s with
  | leaf state =>
      by_cases h : (c.poll state.1).1 = .ready
      · rw [map, emit_leaf_of_ready h, emit_leaf_of_ready (c := c.noting) h]
        rfl
      · rw [map, emit_leaf_of_ne h, emit_leaf_of_ne (c := c.noting) h]
        rfl
  | both a b => rw [map, emit_both, emit_both, map, take_noting, take_noting]

theorem map_blank (s : Sink σ) : s.blank.map Prod.fst = s := by
  induction s with
  | leaf state => rfl
  | both a b iha ihb =>
      rw [blank, map, map]
      exact congr (congrArg both iha) ihb

theorem emitAll_noting (s : Sink (σ × List Touch)) (events : List Event) :
    (s.emitAll c.noting events).map Prod.fst = (s.map Prod.fst).emitAll c events := by
  induction events generalizing s with
  | nil => rfl
  | cons event events ih =>
      rw [emitAll_cons, emitAll_cons, ← emit_noting]
      exact ih _

/-- Without its notes, the sink is where it would be anyway. -/
theorem map_emitAll_blank (s : Sink σ) (events : List Event) :
    (s.blank.emitAll c.noting events).map Prod.fst = s.emitAll c events := by
  rw [emitAll_noting, map_blank]

/-! ## A leaf alone -/

variable {touches : List Touch}

theorem emit_noting_of_ready (h : (c.poll state).1 = .ready) :
    (leaf (state, touches)).emit c.noting event =
      leaf ((c.take event (c.poll state).2).2, touches ++ [.asked .ready, .handed event]) := by
  have hready : (c.noting.poll (state, touches)).1 = .ready := h
  rw [emit_leaf_of_ready hready]
  simp [Conduct.noting, h]

theorem emit_noting_of_ne (h : (c.poll state).1 ≠ .ready) :
    (leaf (state, touches)).emit c.noting event =
      leaf ((c.poll state).2, touches ++ [.asked (c.poll state).1]) := by
  have hready : (c.noting.poll (state, touches)).1 ≠ .ready := h
  rw [emit_leaf_of_ne hready]
  rfl

theorem exists_served (c : Conduct σ) (state : σ) (touches : List Touch) (events : List Event) :
    ∃ state' rest, (leaf (state, touches)).emitAll c.noting events = leaf (state', touches ++ rest) ∧
      Served events rest := by
  induction events generalizing state touches with
  | nil => exact ⟨state, [], by simp, .nil⟩
  | cons event events ih =>
      rw [emitAll_cons]
      by_cases h : (c.poll state).1 = .ready
      · obtain ⟨state', rest, hend, hserved⟩ := ih (c.take event (c.poll state).2).2
          (touches ++ [.asked .ready, .handed event])
        refine ⟨state', .asked .ready :: .handed event :: rest, ?_, .ready event hserved⟩
        rw [emit_noting_of_ready h]
        simpa using hend
      · obtain ⟨state', rest, hend, hserved⟩ := ih (c.poll state).2
          (touches ++ [.asked (c.poll state).1])
        refine ⟨state', .asked (c.poll state).1 :: rest, ?_, .unready event h hserved⟩
        rw [emit_noting_of_ne h]
        simpa using hend

theorem heeds_leaf (c : Conduct σ) (state : σ) : (leaf state).Heeds c := by
  intro events leaf hleaf
  obtain ⟨state', rest, hend, hserved⟩ := exists_served c state [] events
  rw [blank, map, hend] at hleaf
  rw [List.mem_singleton.mp hleaf]
  exact hserved

/-! ## Leaves below a pair -/

theorem leaves_emit_both (c : Conduct σ) (a b : Sink σ) (event : Event) :
    ((both a b).emit c event).leaves =
      (both a b).leaves.map fun state => (c.take event state).2 := by
  rw [emit_both, leaves, leaves, leaves_take, leaves_take, List.map_append]

/-- The leaves below a pair take all events, one after another. -/
theorem leaves_emitAll_both (c : Conduct σ) (a b : Sink σ) (events : List Event) :
    ((both a b).emitAll c events).leaves = (both a b).leaves.map fun state =>
      events.foldl (fun state event => (c.take event state).2) state := by
  induction events generalizing a b with
  | nil => exact (List.map_id _).symm
  | cons event events ih =>
      have hone := leaves_emit_both c a b event
      rw [emit_both] at hone
      rw [emitAll_cons, emit_both, ih, hone, List.map_map]
      rfl

theorem foldl_take_noting (c : Conduct σ) (events : List Event) (leaf : σ × List Touch) :
    (events.foldl (fun leaf event => (c.noting.take event leaf).2) leaf).2 =
      leaf.2 ++ events.map .handed := by
  induction events generalizing leaf with
  | nil => exact (List.append_nil _).symm
  | cons event events ih =>
      rw [List.foldl_cons, ih]
      simp [Conduct.noting]

theorem touches_blank (s : Sink σ) : ∀ leaf ∈ s.blank.leaves, leaf.2 = [] := by
  induction s with
  | leaf state => simp [blank, map, leaves]
  | both a b iha ihb =>
      intro leaf hleaf
      rcases List.mem_append.mp hleaf with ha | hb
      · exact iha leaf ha
      · exact ihb leaf hb

/-- Every leaf below a pair gets every event once and in order, although it is never asked. -/
theorem touches_both (c : Conduct σ) (a b : Sink σ) (events : List Event) :
    ∀ leaf ∈ ((both a b).blank.emitAll c.noting events).leaves, leaf.2 = events.map .handed := by
  intro leaf hleaf
  have hblank : (both a b).blank = both a.blank b.blank := rfl
  rw [hblank, leaves_emitAll_both, List.mem_map, ← hblank] at hleaf
  obtain ⟨start, hstart, rfl⟩ := hleaf
  rw [foldl_take_noting, touches_blank _ start hstart, List.nil_append]

theorem leaves_ne_nil (s : Sink σ) : s.leaves ≠ [] := by
  induction s with
  | leaf state => exact List.cons_ne_nil _ _
  | both a b iha _ => exact fun h => iha (List.append_eq_nil_iff.mp h).1

/-! ## All trees -/

/-- A leaf that is ready is handed the event exactly once, whatever its siblings do. -/
theorem forall₂_handed_once (s : Sink (σ × List Touch)) (event : Event) :
    List.Forall₂ (fun before after => (c.poll before.1).1 = .ready →
        after.2.count (.handed event) = before.2.count (.handed event) + 1)
      s.leaves (s.emit c.noting event).leaves := by
  cases s with
  | leaf start =>
      obtain ⟨state, touches⟩ := start
      by_cases h : (c.poll state).1 = .ready
      · rw [emit_noting_of_ready h]
        exact .cons (fun _ => by simp [List.count_append]) .nil
      · rw [emit_noting_of_ne h]
        exact .cons (fun hready => absurd hready h) .nil
  | both a b =>
      rw [leaves_emit_both, List.forall₂_map_right_iff, List.forall₂_same]
      intro before _ _
      simp [Conduct.noting, List.count_append]

/-- Readiness is heeded in a sink that is a leaf, and in no other. -/
theorem heeds_iff_leaf (c : Conduct σ) (s : Sink σ) : s.Heeds c ↔ ∃ state, s = leaf state := by
  constructor
  · intro h
    cases s with
    | leaf state => exact ⟨state, rfl⟩
    | both a b =>
        -- One event is enough: the leaves have noted down that they got it, and no question.
        obtain ⟨leaf, hleaf⟩ :=
          List.exists_mem_of_ne_nil _ (leaves_ne_nil ((both a b).blank.emitAll c.noting [.claimed]))
        have hserved := h [.claimed] leaf hleaf
        rw [touches_both c a b [.claimed] leaf hleaf] at hserved
        cases hserved
  · rintro ⟨state, rfl⟩
    exact heeds_leaf c state

/-- A leaf that says that it is not ready gets no event when it stands alone, and gets it as the member
of a pair. -/
theorem not_heeds_unreadyMember :
    let unready : Leaf := .unready "down" (.ofCapacity 1)
    let alone : Sink Leaf := .leaf unready
    let pair : Sink Leaf := .both alone (.leaf (.window (.ofCapacity 1)))
    (Leaf.conduct.poll unready).1 = .failed (.leaf "down") ∧
      (alone.emit Leaf.conduct .claimed).windows.map Window.events = [[]] ∧
      (pair.emit Leaf.conduct .claimed).windows.map Window.events = [[.claimed], [.claimed]] ∧
      ¬ pair.Heeds Leaf.conduct := by
  refine ⟨by decide, by decide, by decide, fun h => ?_⟩
  obtain ⟨state, hleaf⟩ := (heeds_iff_leaf _ _).mp h
  cases hleaf

end Sink

end Admission
