import ScrewLang.Proofs.Structured.Leaves

/-!
# A flat run follows the syntax tree

A block that stands in a program, its loops linked by the jump table, is executed by the flat
machine exactly as its structure says. One direction is an induction on the derivation; for the
other a run that ends is split by the number of its rounds.
-/

namespace ScrewLang

namespace Structured

open Machine (State Image Controls Outcome)

/-- Two places of a program hold braces that are partners. -/
structure Linked (image : Image) (first second : Nat) : Prop where
  opening : image.symbols[first]? = some (.brace .opening)
  closing : image.symbols[second]? = some (.brace .closing)
  forth : image.jumps.getD first none = some second
  back : image.jumps.getD second none = some first

/-- A block stands at a place of a program. -/
def Block.Placed (image : Image) : Nat → Block → Prop
  | _, .done => True
  | place, .leaf first rest =>
    first.At image.symbols place ∧ rest.Placed image (place + first.width)
  | place, .loop body rest =>
    Linked image place (place + 1 + body.width) ∧ body.Placed image (place + 1) ∧
      rest.Placed image (place + body.width + 2)

/-- Where a run goes on after either of two partners. -/
def pastBrace (first second : Nat) (state : State) : State :=
  { state with
    place := if state.tape.get = 0 then second + 1 else first + 1
    steps := state.steps + 1 }

theorem place_pastBrace_of_zero {first second : Nat} {state : State} (h : state.tape.get = 0) :
    (pastBrace first second state).place = second + 1 :=
  if_pos h

theorem place_pastBrace_of_ne_zero {first second : Nat} {state : State} (h : state.tape.get ≠ 0) :
    (pastBrace first second state).place = first + 1 :=
  if_neg h

variable {image : Image} {state : State} {first second : Nat}

/-- An opening brace is passed into the loop or past its end. -/
theorem Linked.round_opening (h : Linked image first second) (hp : state.place = first) :
    state.round image .live Controls.none = .ok (pastBrace first second state) := by
  subst hp
  unfold pastBrace
  by_cases hz : state.tape.get = 0
  · refine State.round_eq_ok_iff.mpr ⟨_, .skip second, h.opening, rfl, ?_, ?_⟩
    · simp only [State.decision, Machine.plan, hz, ↓reduceIte, h.forth, Machine.Action.refusal?]
    · rw [if_pos hz]
      rfl
  · refine State.round_eq_ok_iff.mpr ⟨_, .enter, h.opening, rfl, ?_, ?_⟩
    · simp only [State.decision, Machine.plan, hz, ↓reduceIte, Machine.Action.refusal?]
    · rw [if_neg hz]
      rfl

/-- A closing brace is passed in the same way as its partner. -/
theorem Linked.round_closing (h : Linked image first second) (hp : state.place = second) :
    state.round image .live Controls.none = .ok (pastBrace first second state) := by
  subst hp
  unfold pastBrace
  by_cases hz : state.tape.get = 0
  · refine State.round_eq_ok_iff.mpr ⟨_, .leave, h.closing, rfl, ?_, ?_⟩
    · simp only [State.decision, Machine.plan, hz, ↓reduceIte, Machine.Action.refusal?]
    · rw [if_pos hz]
      rfl
  · refine State.round_eq_ok_iff.mpr ⟨_, .loop first, h.closing, rfl, ?_, ?_⟩
    · simp only [State.decision, Machine.plan, hz, ↓reduceIte, h.back, Machine.Action.refusal?]
    · rw [if_neg hz]
      rfl

/-- From a closing brace a run goes on as it would from the partner, in the same state. -/
theorem Linked.after_closing (h : Linked image first second) (hp : state.place = second)
    (count : Nat) :
    state.after image .live Controls.none (count + 1) =
      State.after image .live Controls.none (count + 1) { state with place := first } := by
  have ho : State.round image .live Controls.none { state with place := first } =
      .ok (pastBrace first second state) := h.round_opening rfl
  rw [State.after_succ_of_round count (h.round_closing hp), State.after_succ_of_round count ho]

/-- What a run has come to when it has executed a block: the place after it, or a failing round. -/
def Arrives (image : Image) (target : Nat) (ending : Option Machine.Fault)
    (reached : State) : Prop :=
  match ending with
  | none => reached.place = target
  | some fault => reached.round image .live Controls.none = .error (.failed fault)

/-- At an opening brace nothing has come to its end yet. -/
theorem Linked.not_arrives (h : Linked image first second) (hp : state.place = first)
    {target : Nat} (ht : target ≠ first) (ending : Option Machine.Fault) :
    ¬ Arrives image target ending state := by
  intro ha
  cases ending with
  | none => exact ht (ha.symm.trans hp)
  | some fault =>
    have hr := ha.symm.trans (h.round_opening hp)
    cases hr

/-- What is derived for a block the flat machine does, in some number of rounds. -/
theorem Exec.simulated {place : Nat} {block : Block} {store final : Store}
    {ending : Option Machine.Fault} (h : Exec image.eof place block store ending final)
    (hp : block.Placed image place) (hs : state.place = place) (hst : Store.ofState state = store) :
    ∃ count reached, state.after image .live Controls.none count = some reached ∧
      Store.ofState reached = final ∧ Arrives image (place + block.width) ending reached := by
  induction h generalizing state with
  | done => exact ⟨0, state, State.after_zero, hst, hs⟩
  | leaf head tail ih =>
    subst hs hst
    obtain ⟨hl, hr⟩ := hp
    obtain ⟨next, hround, hn, rfl⟩ := hl.round_of_ok head
    obtain ⟨count, reached, ha, hf, harr⟩ := ih hr hn rfl
    refine ⟨count + 1, reached, by rw [State.after_succ_of_round count hround, ha], hf, ?_⟩
    rwa [Block.width, ← Nat.add_assoc]
  | leafFails head =>
    subst hs hst
    exact ⟨0, state, State.after_zero, rfl, hp.1.round_of_error head⟩
  | @skip place body rest _ _ _ zero tail ih =>
    subst hst
    obtain ⟨hl, -, hr⟩ := hp
    have hn : (pastBrace place (place + 1 + body.width) state).place = place + body.width + 2 := by
      rw [place_pastBrace_of_zero zero]
      omega
    obtain ⟨count, reached, ha, hf, harr⟩ := ih hr hn rfl
    refine ⟨count + 1, reached, ?_, hf, ?_⟩
    · rw [State.after_succ_of_round count (hl.round_opening hs), ha]
    · have hw : place + (Block.loop body rest).width = place + body.width + 2 + rest.width := by
        rw [Block.width]
        omega
      rwa [hw]
  | @again place body rest _ _ _ _ nonzero head tail ihb ihl =>
    subst hst
    obtain ⟨first, middle, ham, hm, harm⟩ := ihb hp.2.1 (place_pastBrace_of_ne_zero nonzero) rfl
    obtain ⟨count, reached, ha, hf, harr⟩ := @ihl { middle with place := place } hp rfl hm
    cases count with
    | zero =>
      rw [State.after_zero] at ha
      cases ha
      refine absurd harr (hp.1.not_arrives rfl ?_ _)
      rw [Block.width]
      omega
    | succ count =>
      -- At the closing brace the run goes on as it would from the opening one.
      refine ⟨first + (count + 1) + 1, reached, ?_, hf, harr⟩
      rw [State.after_succ_of_round _ (hp.1.round_opening hs), State.after_add (count + 1) ham,
        hp.1.after_closing harm, ha]
  | bodyFails nonzero head ih =>
    subst hst
    obtain ⟨hl, hb, -⟩ := hp
    obtain ⟨count, reached, ha, hf, harr⟩ := ih hb (place_pastBrace_of_ne_zero nonzero) rfl
    refine ⟨count + 1, reached, ?_, hf, harr⟩
    rw [State.after_succ_of_round count (hl.round_opening hs), ha]

/-- For a block that a run begins, something is derived if the run ends. -/
theorem exists_exec_of_end {count : Nat} {last : State} {outcome : Outcome} {block : Block}
    (ha : state.after image .live Controls.none count = some last)
    (he : last.round image .live Controls.none = .error outcome)
    (hp : block.Placed image state.place) :
    ∃ ending final, Exec image.eof state.place block (.ofState state) ending final := by
  -- A loop that repeats is no smaller than before, but the run that is left is shorter.
  induction count using Nat.strongRecOn generalizing state block with
  | ind count ih =>
    cases block with
    | done => exact ⟨none, _, .done⟩
    | leaf first rest =>
      obtain ⟨hl, hr⟩ := hp
      cases hx : first.exec image.eof state.place (.ofState state) with
      | error fault => exact ⟨some fault, _, .leafFails hx⟩
      | ok store =>
        obtain ⟨next, hround, hn, rfl⟩ := hl.round_of_ok hx
        obtain ⟨left, rfl, hleft⟩ := State.rest_of_after (State.after_one hround) ha he
        rw [← hn] at hr
        obtain ⟨ending, final, ht⟩ := ih left (by omega) hleft hr
        rw [hn] at ht
        exact ⟨ending, final, .leaf hx ht⟩
    | loop body rest =>
      have hround := hp.1.round_opening rfl
      obtain ⟨left, rfl, hleft⟩ := State.rest_of_after (State.after_one hround) ha he
      by_cases hz : state.tape.get = 0
      · have hn : (pastBrace state.place (state.place + 1 + body.width) state).place =
            state.place + body.width + 2 := by
          rw [place_pastBrace_of_zero hz]
          omega
        have hr := hp.2.2
        rw [← hn] at hr
        obtain ⟨ending, final, ht⟩ := ih left (by omega) hleft hr
        rw [hn] at ht
        exact ⟨ending, final, .skip hz ht⟩
      · have hn : (pastBrace state.place (state.place + 1 + body.width) state).place =
            state.place + 1 := place_pastBrace_of_ne_zero hz
        have hb := hp.2.1
        rw [← hn] at hb
        obtain ⟨ending, store, hx⟩ := ih left (by omega) hleft hb
        cases ending with
        | some fault =>
          rw [hn] at hx
          exact ⟨some fault, store, .bodyFails hz hx⟩
        | none =>
          obtain ⟨used, middle, hm, rfl, harr⟩ := hx.simulated hb rfl rfl
          rw [hn] at hx harr
          obtain ⟨more, rfl, hmore⟩ := State.rest_of_after hm hleft he
          have hclosing := hp.1.round_closing harr
          obtain ⟨once, rfl, -⟩ := State.rest_of_after (State.after_one hclosing) hmore he
          rw [Nat.add_comm 1 once, hp.1.after_closing harr] at hmore
          obtain ⟨ending, final, ht⟩ := ih (once + 1) (by omega) hmore hp
          exact ⟨ending, final, .again hz hx ht⟩

end Structured

end ScrewLang
