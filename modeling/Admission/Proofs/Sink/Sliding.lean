import Admission.Sink.Window
import Mathlib.Algebra.GroupWithZero.Nat
import Mathlib.Data.List.DropRight
import Mathlib.Data.List.Induction

/-! # What a window holds

A window slides over the events that it receives: it holds the latest ones since it was last cleared, as
many as it has room for. Its clones all see the same events, whichever of them took them in or cleared
them away. What is counted as evicted is what the segments between two clears had too many of. -/

namespace Admission.Window

/-- What is done with a window. -/
inductive Use
  | call (event : Event)
  | clear
deriving DecidableEq, Repr

namespace Use

def on (w : Window) : Use → Window
  | call event => w.push event
  | clear => w.clear

def isClear : Use → Bool
  | call _ => false
  | clear => true

def event? : Use → Option Event
  | call event => some event
  | clear => none

end Use

/-! ## Segments between clears -/

/-- The events received between two clears each, those before the first clear and those after the last
one included. -/
def segments (uses : List Use) : List (List Event) :=
  (uses.splitOnP Use.isClear).map (·.filterMap Use.event?)

/-- The events received since the last clear. -/
def received (uses : List Use) : List Event :=
  (uses.rtakeWhile fun use => !use.isClear).filterMap Use.event?

/-- How many events the segments have too many of. -/
def excess (room : Nat) (uses : List Use) : Nat :=
  ((segments uses).map fun segment => segment.length - room).sum

section Segments

variable {uses : List Use} {event : Event}

@[simp] theorem received_nil : received [] = [] := by simp [received]

@[simp] theorem received_call : received (uses ++ [.call event]) = received uses ++ [event] := by
  simp [received, Use.isClear, Use.event?]

@[simp] theorem received_clear : received (uses ++ [.clear]) = [] := by
  simp [received, Use.isClear]

/-- The last piece of a list that is split goes on until the next place to split at. -/
theorem exists_splitOnP_append {α : Type} (p : α → Bool) (xs : List α) :
    ∃ closed, ∀ more, (∀ x ∈ more, p x = false) →
      (xs ++ more).splitOnP p = closed ++ [xs.rtakeWhile (fun x => !p x) ++ more] := by
  induction xs using List.reverseRecOn with
  | nil => exact ⟨[], fun more hmore => by simpa using List.splitOnP_eq_singleton hmore⟩
  | append_singleton xs x ih =>
      cases hx : p x with
      | true =>
          refine ⟨xs.splitOnP p, fun more hmore => ?_⟩
          rw [List.append_assoc, List.singleton_append, List.splitOnP_append_cons xs more hx,
            List.splitOnP_eq_singleton hmore, List.rtakeWhile_concat_neg _ _ _ (by simp [hx])]
          rfl
      | false =>
          obtain ⟨closed, hclosed⟩ := ih
          refine ⟨closed, fun more hmore => ?_⟩
          rw [List.rtakeWhile_concat_pos _ _ _ (by simp [hx]), List.append_assoc,
            List.singleton_append, hclosed (x :: more) (by simpa [hx] using hmore)]
          simp

theorem exists_segments (uses : List Use) : ∃ closed, segments uses = closed ++ [received uses] ∧
    ∀ event, segments (uses ++ [.call event]) = closed ++ [received uses ++ [event]] := by
  obtain ⟨closed, hclosed⟩ := exists_splitOnP_append Use.isClear uses
  refine ⟨closed.map (·.filterMap Use.event?), ?_, fun event => ?_⟩
  · have h := hclosed [] (by simp)
    simp only [List.append_nil] at h
    simp [segments, h, received]
  · have h := hclosed [.call event] (by simp [Use.isClear])
    simp [segments, h, received, Use.event?]

@[simp] theorem excess_nil (room : Nat) : excess room [] = 0 := by simp [excess, segments]

/-- An event is one too many if and only if its segment has filled the room. -/
theorem excess_call (room : Nat) : excess room (uses ++ [.call event]) =
    excess room uses + if room ≤ (received uses).length then 1 else 0 := by
  obtain ⟨closed, hopen, hcall⟩ := exists_segments uses
  rw [excess, excess, hopen, hcall]
  simp only [List.map_append, List.map_cons, List.map_nil, List.sum_append, List.sum_cons,
    List.sum_nil, List.length_append, List.length_singleton]
  split <;> omega

@[simp] theorem excess_clear (room : Nat) : excess room (uses ++ [.clear]) = excess room uses := by
  have hsplit : (uses ++ [Use.clear]).splitOnP Use.isClear = uses.splitOnP Use.isClear ++ [[]] :=
    List.splitOnP_append_cons uses [] rfl
  simp [excess, segments, hsplit]

end Segments

/-! ## One window -/

/-- What a window that was made with some room has to show for its uses. -/
structure Slides (room : Nat) (uses : List Use) (w : Window) : Prop where
  capacity_eq : w.capacity = room
  suffix : w.events <:+ received uses
  length_eq : w.events.length = min room (received uses).length
  evicted_eq : w.evicted = .ofNat (excess room uses)

namespace Slides

variable {room : Nat} {uses : List Use} {w : Window}

theorem made (capacity : Nat) : Slides (max capacity 1) [] (.ofCapacity capacity) where
  capacity_eq := rfl
  suffix := by simp [ofCapacity]
  length_eq := by simp [ofCapacity]
  evicted_eq := by simp [ofCapacity]

theorem call (hroom : 0 < room) (h : Slides room uses w) (event : Event) :
    Slides room (uses ++ [.call event]) (w.push event) := by
  have hcapacity := h.capacity_eq
  have hlength := h.length_eq
  by_cases hfull : room ≤ (received uses).length
  · have hpush : w.push event =
        { w with events := w.events.drop 1 ++ [event], evicted := w.evicted + 1 } :=
      if_pos (by rw [size]; omega)
    obtain ⟨front, hfront⟩ := (List.drop_suffix 1 w.events).trans h.suffix
    rw [hpush]
    refine ⟨hcapacity, ⟨front, ?_⟩, ?_, ?_⟩
    · rw [received_call, ← hfront, List.append_assoc]
    · simp only [List.length_append, List.length_drop, List.length_singleton, received_call]
      omega
    · rw [excess_call, if_pos hfull, UInt64.ofNat_add, ← h.evicted_eq]
      rfl
  · have hpush : w.push event = { w with events := w.events ++ [event] } :=
      if_neg (by rw [size]; omega)
    obtain ⟨front, hfront⟩ := h.suffix
    rw [hpush]
    refine ⟨hcapacity, ⟨front, ?_⟩, ?_, ?_⟩
    · rw [received_call, ← hfront, List.append_assoc]
    · simp only [List.length_append, List.length_singleton, received_call]
      omega
    · rw [excess_call, if_neg hfull, Nat.add_zero]
      exact h.evicted_eq

theorem clear (h : Slides room uses w) : Slides room (uses ++ [.clear]) w.clear where
  capacity_eq := h.capacity_eq
  suffix := by simp [Window.clear]
  length_eq := by simp [Window.clear]
  evicted_eq := by simpa [Window.clear] using h.evicted_eq

theorem use (hroom : 0 < room) (h : Slides room uses w) (use : Use) :
    Slides room (uses ++ [use]) (use.on w) := by
  cases use with
  | call event => exact h.call hroom event
  | clear => exact h.clear

end Slides

/-! ## Clones -/

/-- A clone has a capacity of its own and shares the rest: it sees what another one has left. -/
def seeing (w w' : Window) : Window := { w with events := w'.events, evicted := w'.evicted }

theorem seeing_of_capacity_eq {w w' : Window} (h : w.capacity = w'.capacity) :
    w.seeing w' = w' := by
  rw [seeing, h]

/-- The clones of one window, and what was done through any of them. -/
inductive Clones (capacity : Nat) : List Window → List Use → Prop
  | made : Clones capacity [.ofCapacity capacity] []
  /-- Clones are cloned and dropped. -/
  | subset {clones clones' : List Window} {uses : List Use} :
      Clones capacity clones uses → clones' ⊆ clones → Clones capacity clones' uses
  | used {clones : List Window} {uses : List Use} {w : Window} (use : Use) :
      Clones capacity clones uses → w ∈ clones →
        Clones capacity (clones.map (·.seeing (use.on w))) (uses ++ [use])

variable {capacity : Nat} {clones : List Window} {uses : List Use}

theorem Clones.slides (h : Clones capacity clones uses) :
    ∀ w ∈ clones, Slides (max capacity 1) uses w := by
  induction h with
  | made =>
      intro w hw
      rw [List.mem_singleton.mp hw]
      exact .made capacity
  | subset _ hsubset ih => exact fun w hw => ih w (hsubset hw)
  | @used clones uses w use _ hw ih =>
      have hnext := (ih w hw).use (Nat.le_max_right capacity 1) use
      intro w' hw'
      obtain ⟨clone, hclone, rfl⟩ := List.mem_map.mp hw'
      rw [seeing_of_capacity_eq ((ih clone hclone).capacity_eq.trans hnext.capacity_eq.symm)]
      exact hnext

/-- Whatever is done to a window can be done through any number of clones. -/
theorem clones_replicate (capacity n : Nat) (uses : List Use) :
    Clones capacity (List.replicate n (uses.foldl Use.on (.ofCapacity capacity))) uses := by
  induction uses using List.reverseRecOn generalizing n with
  | nil => exact .subset .made (by simp [List.subset_def])
  | append_singleton uses use ih =>
      have hmany := ih (n + 1)
      have hmem := List.mem_replicate.mpr
        ⟨Nat.succ_ne_zero n, Eq.refl (uses.foldl Use.on (.ofCapacity capacity))⟩
      have hslides := hmany.slides _ hmem
      have hnext := hslides.use (Nat.le_max_right capacity 1) use
      refine (hmany.used use hmem).subset ?_
      rw [List.map_replicate, seeing_of_capacity_eq
        (hslides.capacity_eq.trans hnext.capacity_eq.symm), List.foldl_concat]
      simp [List.subset_def]

/-- Every clone holds the last events received since the last clear, oldest first, as many as there is
room for, and counts as evicted what all segments had too many of, as far as a word can count. -/
theorem clones_slide {w : Window} (h : Clones capacity clones uses) (hw : w ∈ clones) :
    let room := max capacity 1
    w.events <:+ received uses ∧ w.events.length = min room (received uses).length ∧
      w.evicted = .ofNat (excess room uses) ∧
      (excess room uses < UInt64.size → w.evicted.toNat = excess room uses) := by
  have hslides := h.slides w hw
  refine ⟨hslides.suffix, hslides.length_eq, hslides.evicted_eq, fun hfits => ?_⟩
  rw [hslides.evicted_eq, UInt64.toNat_ofNat_of_lt' hfits]

/-- Three events and then four, with a clear in between, for two clones with room for two events. -/
def crowdedUses : List Use :=
  [.call .claimed, .call .released, .call .claimed, .clear, .call .claimed, .call .inFlightConflict,
    .call (.replayed 200), .call .released]

theorem clones_slide_crowdedUses :
    let w : Window := ⟨2, [.replayed 200, .released], 3⟩
    Clones 2 [w, w] crowdedUses ∧ excess 2 crowdedUses = 3 ∧
      w.events <:+ received crowdedUses ∧ w.events.length = min 2 (received crowdedUses).length ∧
      w.evicted.toNat = excess 2 crowdedUses := by
  intro w
  have hclones : Clones 2 [w, w] crowdedUses := clones_replicate 2 2 crowdedUses
  have hexcess : excess 2 crowdedUses = 3 := by decide
  obtain ⟨hsuffix, hlength, -, hevicted⟩ := clones_slide hclones List.mem_cons_self
  exact ⟨hclones, hexcess, hsuffix, hlength, hevicted (by decide)⟩

end Admission.Window
