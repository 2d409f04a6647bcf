import ScrewLang.Proofs.Machine.Limits

/-!
# Input that is not read

A run takes bytes from the front of the input queue, one for every read, as long as there are any.
What it leaves in the queue has no influence on it: with anything else queued behind the bytes that
it takes, the same run takes them again and leaves the rest. The policy for the end of the input has
no influence either until a read meets an empty queue.
-/

namespace ScrewLang

/-- A console with other input queued. -/
def Console.refeed (input : List UInt8) (console : Console) : Console :=
  { console with input := input }

namespace Machine

/-! ### Reading one byte -/

namespace Action

variable {image : Image} {tape : Tape} {place : Nat} {symbol : Symbol} {action : Action}

/-- To read is planned for the input symbol and for no other. -/
theorem eq_read_iff_of_plan (h : plan image tape place symbol = .ok action) :
    action = .read ↔ symbol = .input := by
  cases symbol with
  | input =>
    cases h
    simp
  | right | left =>
    simp only [plan] at h
    split at h
    · cases h
      simp
    · cases h
  | brace side =>
    cases side with
    | opening | closing =>
      simp only [plan] at h
      repeat' split at h
      all_goals cases h
      all_goals simp
  | star =>
    simp only [plan] at h
    split at h
    · cases h
      simp
    · cases h
  | increment | decrement | output =>
    cases h
    simp
  | caret | digit => cases h

/-- Only reading takes a byte from the queue. -/
theorem input_converse (action : Action) (tape : Tape) (console : Console) :
    (action.converse tape console).2.input =
      if action = .read then console.input.tail else console.input := by
  cases action with
  | read =>
    rw [converse, Console.read]
    cases hi : console.input with
    | nil => simp [hi]
    | cons b rest => simp
  | move | increment | decrement | emit | skip | enter | loop | leave | dump => rfl

/-- What is queued does not decide whether the console refuses an action. -/
theorem refusal?_refeed (action : Action) (tape : Tape) (console : Console) (input : List UInt8) :
    action.refusal? tape (console.refeed input) = action.refusal? tape console := by
  cases action <;> rfl

end Action

namespace State

/-- A state with other input queued. -/
def refeed (input : List UInt8) (state : State) : State :=
  { state with console := state.console.refeed input }

/-- The next instruction is a read. -/
def AtRead (symbols : Array Symbol) (state : State) : Prop :=
  symbols[state.place]? = some .input

instance (symbols : Array Symbol) (state : State) : Decidable (state.AtRead symbols) :=
  inferInstanceAs (Decidable (symbols[state.place]? = some .input))

/-- How many bytes the next instruction asks for. -/
def demand (symbols : Array Symbol) (state : State) : Nat :=
  if state.AtRead symbols then 1 else 0

/-- How many of the next `count` instructions of a live run are reads. -/
def reads (image : Image) (controls : Controls) (state : State) : (count : Nat) → Nat
  | 0 => 0
  | count + 1 =>
    reads image controls state count +
      ((state.after image .live controls count).map (demand image.symbols)).getD 0

variable {image : Image} {controls : Controls} {state next middle final : State}
  {outcome : Outcome} {count : Nat}

theorem reads_succ (h : state.after image .live controls count = some middle) :
    state.reads image controls (count + 1) =
      state.reads image controls count + middle.demand image.symbols := by
  rw [reads, h]
  rfl

/-- An instruction takes what it asks for from the front of the queue, as far as there is any. -/
theorem input_of_round (h : state.round image .live controls = .ok next) :
    next.console.input = state.console.input.drop (state.demand image.symbols) := by
  obtain ⟨symbol, action, hs, -, hd, rfl⟩ := round_eq_ok_iff.mp h
  have hread := Action.eq_read_iff_of_plan (decision_eq_ok_iff.mp hd).1
  show (action.converse state.tape state.console).2.input = _
  rw [Action.input_converse]
  simp only [demand, AtRead, hs, Option.some.injEq, hread]
  split
  · rw [List.drop_one]
  · rw [List.drop_zero]

/-- A read stores the byte at the front of the queue, or what the policy says of an empty one. -/
theorem tape_of_round (h : state.round image .live controls = .ok next)
    (hr : state.AtRead image.symbols) :
    next.tape = state.tape.modify fun cell =>
      (state.console.input.head?.map UInt8.toInt8).getD (image.eof.apply cell) := by
  obtain ⟨symbol, action, hs, -, hd, rfl⟩ := round_eq_ok_iff.mp h
  obtain rfl : symbol = .input := Option.some.inj (hs.symm.trans hr)
  obtain rfl : action = .read :=
    (Action.eq_read_iff_of_plan (decision_eq_ok_iff.mp hd).1).mpr rfl
  show Action.apply .read image.eof (state.console.read).1 state.tape = _
  rw [Console.read]
  cases state.console.input with
  | nil => rfl
  | cons b rest => rfl

/-- A run takes one byte for every read from the front of the queue, as far as there are any. -/
theorem input_of_after (h : state.after image .live controls count = some final) :
    final.console.input = state.console.input.drop (state.reads image controls count) := by
  induction count generalizing final with
  | zero =>
    rw [after_zero] at h
    cases h
    rfl
  | succ count ih =>
    obtain ⟨middle, hm, hr⟩ := exists_round_of_after_succ h
    rw [input_of_round hr, ih hm, List.drop_drop, reads_succ hm]

/-! ### The same round on another queue -/

theorem decision_refeed (image : Image) (eof : EofPolicy) (state : State) (input : List UInt8)
    (symbol : Symbol) :
    (state.refeed input).decision { image with eof := eof } .live symbol =
      state.decision image .live symbol := by
  have hplan : plan { image with eof := eof } state.tape state.place symbol =
      plan image state.tape state.place symbol := rfl
  rw [decision, decision]
  simp only [refeed, hplan, Action.refusal?_refeed]

/-- Where a run ends, it ends whatever is queued. -/
theorem round_refeed_error (input : List UInt8) (eof : EofPolicy)
    (h : state.round image .live controls = .error outcome) :
    (state.refeed input).round { image with eof := eof } .live controls = .error outcome := by
  cases outcome with
  | halted =>
    have hend := round_eq_halted_iff.mp h
    exact round_eq_halted_iff.mpr hend
  | failed fault =>
    rw [round_eq_failed_iff] at h ⊢
    simp only [decision_refeed]
    exact h
  | unfinished => exact absurd h round_ne_unfinished

/-- An instruction that finds the byte it asks for does the same whatever follows that byte. -/
theorem round_refeed_ok (more : List UInt8) (eof : EofPolicy)
    (h : state.round image .live controls = .ok next)
    (hf : state.AtRead image.symbols → state.console.input ≠ []) :
    (state.refeed (state.console.input.take (state.demand image.symbols) ++ more)).round
      { image with eof := eof } .live controls = .ok (next.refeed more) := by
  obtain ⟨symbol, action, hs, hr, hd, rfl⟩ := round_eq_ok_iff.mp h
  refine round_eq_ok_iff.mpr ⟨symbol, action, hs, hr, ?_, ?_⟩
  · rw [decision_refeed, hd]
  have hread := Action.eq_read_iff_of_plan (decision_eq_ok_iff.mp hd).1
  simp only [demand, AtRead, hs, Option.some.injEq, ← hread] at hf ⊢
  cases action with
  | read =>
    obtain ⟨b, rest, hi⟩ := List.exists_cons_of_ne_nil (hf rfl)
    simp [perform, refeed, Console.refeed, Action.converse, Console.read, hi, Action.apply,
      Action.next]
  | move | increment | decrement | emit | skip | enter | loop | leave | dump => rfl

/-- One of the first `count` instructions is a read that finds the queue empty. -/
def Starves (image : Image) (controls : Controls) (state : State) (count : Nat) : Prop :=
  ∃ k < count, ∃ starved ∈ state.after image .live controls k,
    starved.AtRead image.symbols ∧ starved.console.input = []

instance (image : Image) (controls : Controls) (state : State) (count : Nat) :
    Decidable (state.Starves image controls count) :=
  inferInstanceAs (Decidable (∃ k < count, ∃ starved ∈ state.after image .live controls k,
    starved.AtRead image.symbols ∧ starved.console.input = []))

/-- A run in which no read finds the queue empty goes through the same states whatever follows the
bytes that it takes, and leaves just that in the queue. -/
theorem after_refeed (more : List UInt8) (eof : EofPolicy)
    (h : state.after image .live controls count = some final)
    (hf : ¬state.Starves image controls count) :
    (state.refeed (state.console.input.take (state.reads image controls count) ++ more)).after
      { image with eof := eof } .live controls count = some (final.refeed more) := by
  induction count generalizing final more with
  | zero =>
    rw [after_zero] at h
    cases h
    rfl
  | succ count ih =>
    obtain ⟨middle, hm, hr⟩ := exists_round_of_after_succ h
    have hbefore : ¬state.Starves image controls count := by
      rintro ⟨k, hk, rest⟩
      exact hf ⟨k, Nat.lt_succ_of_lt hk, rest⟩
    have hfed : middle.AtRead image.symbols → middle.console.input ≠ [] :=
      fun hread hempty => hf ⟨count, Nat.lt_succ_self count, middle, hm, hread, hempty⟩
    -- What the last instruction takes comes first in what follows the bytes taken before it.
    have hfirst := ih (middle.console.input.take (middle.demand image.symbols) ++ more) hm hbefore
    have hlast := round_refeed_ok more eof hr hfed
    rw [reads_succ hm, List.take_add, List.append_assoc, ← input_of_after hm,
      after_add 1 hfirst, after_one hlast]

/-- A rehearsal leaves the console alone. -/
theorem console_of_after_rehearsal (h : state.after image .rehearsal controls count = some final) :
    final.console = state.console := by
  refine after_induction (motive := fun s => s.console = state.console) h rfl ?_
  intro s t hs ht
  obtain ⟨symbol, action, -, -, -, rfl⟩ := round_eq_ok_iff.mp ht
  exact hs

end State

/-- A run with fuel in which no read finds the queue empty is the same whatever follows the bytes
that it takes. -/
theorem runFrom_refeed {image : Image} {controls : Controls} {fuel count : Nat}
    {state final : State} {outcome : Outcome} (more : List UInt8) (eof : EofPolicy)
    (h : runFrom image .live controls fuel state = (outcome, final))
    (ha : state.after image .live controls count = some final)
    (hf : ¬state.Starves image controls count) :
    runFrom { image with eof := eof } .live controls fuel
        (state.refeed (state.console.input.take (state.reads image controls count) ++ more)) =
      (outcome, final.refeed more) := by
  apply runFrom_eq_iff.mpr
  have same {other : Nat} (ho : state.after image .live controls other = some final) :
      other = count := by
    have hsteps := (State.steps_of_after ho).symm.trans (State.steps_of_after ha)
    omega
  rcases runFrom_eq_iff.mp h with ⟨hu, hl⟩ | ⟨last, hlt, hl, he⟩
  · obtain rfl := same hl
    exact .inl ⟨hu, State.after_refeed more eof ha hf⟩
  · obtain rfl := same hl
    exact .inr ⟨last, hlt, State.after_refeed more eof ha hf, State.round_refeed_error more eof he⟩

/-! ### The same run on another queue -/

variable {machine : Machine} {jumps : Jumps.Table} {controls : Controls} {count : Nat}

/-- A machine with other input queued and another policy for the end of the input. -/
def refeed (input : List UInt8) (eof : EofPolicy) (machine : Machine) : Machine :=
  { machine with eof := eof, console := machine.console.refeed input }

/-- How many of the first `count` instructions of a live run are reads. -/
def reads (machine : Machine) (controls : Controls) (count : Nat) : Nat :=
  match machine.program.jumps with
  | .error _ => 0
  | .ok jumps => machine.start.reads (machine.ready jumps) controls count

/-- One of the first `count` instructions of a live run is a read that finds the queue empty. -/
def Starves (machine : Machine) (controls : Controls) (count : Nat) : Prop :=
  ∃ k < count, ∃ state, machine.Reaches .live controls k state ∧
    state.AtRead machine.program.symbols ∧ state.console.input = []

theorem reads_of_jumps (hj : machine.program.jumps = .ok jumps) (controls : Controls)
    (count : Nat) :
    machine.reads controls count = machine.start.reads (machine.ready jumps) controls count := by
  rw [reads, hj]

theorem reads_of_unmatched {place : Nat} (hj : machine.program.jumps = .error place)
    (controls : Controls) (count : Nat) : machine.reads controls count = 0 := by
  rw [reads, hj]

theorem starves_iff_of_jumps (hj : machine.program.jumps = .ok jumps) :
    machine.Starves controls count ↔
      machine.start.Starves (machine.ready jumps) controls count := by
  constructor
  · rintro ⟨k, hk, state, ⟨other, ho, ha⟩, rest⟩
    rw [hj] at ho
    cases ho
    exact ⟨k, hk, state, ha, rest⟩
  · rintro ⟨k, hk, state, ha, rest⟩
    exact ⟨k, hk, state, ⟨jumps, hj, ha⟩, rest⟩

instance (machine : Machine) (controls : Controls) (count : Nat) :
    Decidable (machine.Starves controls count) :=
  match hj : machine.program.jumps with
  | .error _ => isFalse fun ⟨_, _, _, ⟨_, ho, _⟩, _⟩ => by rw [hj] at ho; cases ho
  | .ok _ => decidable_of_iff _ (starves_iff_of_jumps hj).symm

/-- Every state of a live run has the queue less one byte for every read before it. -/
theorem input_of_reaches {state : State} (h : machine.Reaches .live controls count state) :
    state.console.input = machine.console.input.drop (machine.reads controls count) := by
  obtain ⟨jumps, hj, ha⟩ := h
  rw [reads_of_jumps hj]
  exact State.input_of_after ha

/-- A live run stops in a state that it comes to after the instructions that it counts. -/
theorem exists_reaches_run (hj : machine.program.jumps = .ok jumps) (fuel : Nat) (mode : Mode)
    (controls : Controls) :
    ∃ state, machine.Reaches mode controls (machine.run fuel mode controls).steps state ∧
      (machine.run fuel mode controls).machine = machine.resumed state := by
  obtain ⟨count, ha⟩ :=
    exists_after_runFrom (machine.ready jumps) mode controls fuel machine.start
  have hsteps := State.steps_of_after ha
  rw [run_of_jumps fuel mode controls hj]
  refine ⟨_, ⟨jumps, hj, ?_⟩, rfl⟩
  show _ = some (runFrom (machine.ready jumps) mode controls fuel machine.start).2
  simp only [hsteps]
  rw [show machine.start.steps + count = count from Nat.zero_add count, ha]

/-- A live run leaves the queue less one byte for every read. -/
theorem input_run (machine : Machine) (fuel : Nat) (controls : Controls) :
    (machine.run fuel .live controls).machine.console.input =
      machine.console.input.drop
        (machine.reads controls (machine.run fuel .live controls).steps) := by
  cases hj : machine.program.jumps with
  | error place =>
    rw [reads_of_unmatched hj, run_of_unmatched fuel .live controls hj, List.drop_zero]
  | ok jumps =>
    obtain ⟨state, hr, hm⟩ := exists_reaches_run hj fuel .live controls
    rw [hm, ← input_of_reaches hr]
    rfl

/-- Each read of a live run stores the byte of the queue that is its own. -/
theorem tape_of_reaches {state next : State} (hs : machine.Reaches .live controls count state)
    (hn : machine.Reaches .live controls (count + 1) next)
    (hread : state.AtRead machine.program.symbols) :
    next.tape = state.tape.modify fun cell =>
      (machine.console.input[machine.reads controls count]?.map UInt8.toInt8).getD
        (machine.eof.apply cell) := by
  have hfront := input_of_reaches hs
  obtain ⟨jumps, hj, ha⟩ := hs
  obtain ⟨other, ho, hb⟩ := hn
  rw [hj] at ho
  cases ho
  obtain ⟨middle, hm, hround⟩ := State.exists_round_of_after_succ hb
  obtain rfl : middle = state := Option.some.inj (hm.symm.trans ha)
  rw [State.tape_of_round hround hread, hfront, List.head?_drop]
  rfl

/-- A live run in which no read meets an empty queue is the same whatever follows the bytes that it
takes. -/
theorem run_refeed {fuel : Nat}
    (hf : ¬machine.Starves controls (machine.run fuel .live controls).steps) (more : List UInt8)
    (eof : EofPolicy) :
    let result := machine.run fuel .live controls
    let taken := machine.console.input.take (machine.reads controls result.steps)
    (machine.refeed (taken ++ more) eof).run fuel .live controls =
      { result with machine := result.machine.refeed more eof } := by
  intro result taken
  cases hj : machine.program.jumps with
  | error place =>
    have hresult : result = ⟨.failed (.unmatchedBrace place), machine, 0, []⟩ :=
      run_of_unmatched fuel .live controls hj
    have htaken : taken = [] := by
      simp only [taken, reads_of_unmatched hj, List.take_zero]
    have hrefed : (machine.refeed more eof).program.jumps = .error place := hj
    rw [hresult, htaken, List.nil_append]
    exact run_of_unmatched fuel .live controls hrefed
  | ok jumps =>
    obtain ⟨outcome, final, hrun⟩ : ∃ outcome final,
        runFrom (machine.ready jumps) .live controls fuel machine.start = (outcome, final) :=
      ⟨_, _, rfl⟩
    have hresult : result =
        ⟨outcome, machine.resumed final, final.steps, listing .live final.rows⟩ :=
      run_of_runFrom hj hrun
    obtain ⟨count, ha⟩ :=
      exists_after_runFrom (machine.ready jumps) .live controls fuel machine.start
    rw [hrun] at ha
    have hsteps : result.steps = count := by
      rw [hresult]
      exact (State.steps_of_after ha).trans (Nat.zero_add count)
    have htaken : taken = machine.console.input.take
        (machine.start.reads (machine.ready jumps) controls count) := by
      simp only [taken, hsteps, reads_of_jumps hj]
    have hrefed : (machine.refeed (taken ++ more) eof).program.jumps = .ok jumps := hj
    rw [hsteps, starves_iff_of_jumps hj] at hf
    rw [htaken] at hrefed ⊢
    rw [hresult]
    exact run_of_runFrom hrefed (runFrom_refeed more eof hrun ha hf)

/-- Up to the first read that meets an empty queue a live run is the same under every policy. -/
theorem reaches_of_eof {state : State} (h : machine.Reaches .live controls count state)
    (hf : ¬machine.Starves controls count) (eof : EofPolicy) :
    ({ machine with eof := eof } : Machine).Reaches .live controls count state := by
  obtain ⟨jumps, hj, ha⟩ := h
  rw [starves_iff_of_jumps hj] at hf
  have hqueue : machine.start.console.input.take
      (machine.start.reads (machine.ready jumps) controls count) ++ state.console.input =
        machine.start.console.input := by
    rw [State.input_of_after ha, List.take_append_drop]
  have hsame := State.after_refeed state.console.input eof ha hf
  rw [hqueue] at hsame
  exact ⟨jumps, hj, hsame⟩

/-- A run takes bytes from the front of the queue only. -/
theorem exists_taken_run (machine : Machine) (fuel : Nat) (mode : Mode) (controls : Controls) :
    ∃ taken, machine.console.input =
      taken ++ (machine.run fuel mode controls).machine.console.input := by
  cases mode with
  | live => exact ⟨_, by rw [input_run, List.take_append_drop]⟩
  | rehearsal =>
    refine ⟨[], ?_⟩
    cases hj : machine.program.jumps with
    | error place => rw [run_of_unmatched fuel .rehearsal controls hj, List.nil_append]
    | ok jumps =>
      obtain ⟨state, ⟨other, -, ha⟩, hm⟩ := exists_reaches_run hj fuel .rehearsal controls
      have hc : state.console = machine.console := State.console_of_after_rehearsal ha
      rw [hm, resumed, hc, List.nil_append]

/-- The input that arrives with an event. -/
def Event.received : Event → List UInt8
  | .receive input => input
  | .run _ _ _ => []

/-- Over a whole session what was received is what was taken, followed by what is left. -/
theorem exists_taken_session (machine : Machine) (events : List Event) :
    ∃ taken, machine.console.input ++ events.flatMap Event.received =
      taken ++ (machine.session events).console.input := by
  induction events generalizing machine with
  | nil => exact ⟨[], by simp [session]⟩
  | cons event events ih =>
    obtain ⟨later, hl⟩ := ih (machine.handle event)
    cases event with
    | receive input =>
      refine ⟨later, ?_⟩
      rw [List.flatMap_cons, ← List.append_assoc]
      exact hl
    | run mode controls fuel =>
      obtain ⟨taken, ht⟩ := exists_taken_run machine fuel mode controls
      refine ⟨taken ++ later, ?_⟩
      rw [ht, List.flatMap_cons, Event.received, List.nil_append, List.append_assoc,
        List.append_assoc]
      exact congrArg (taken ++ ·) hl

/-- Input that is not read has no influence, and none is lost or read twice. A live run takes from
the front of the queue one byte for every read, as long as there are any; each read stores the byte
that it takes, and over a whole session every byte received is taken once or still queued. If no
read has met an empty queue, then with anything else queued behind the bytes taken, and under any
policy for the end of the input, the run has the same result and leaves just that in the queue. Up
to the first read that meets an empty queue the policy makes no difference. -/
theorem unread_input_is_inert (machine : Machine) (fuel : Nat) (controls : Controls) :
    let queue := machine.console.input
    let result := machine.run fuel .live controls
    let taken := queue.take (machine.reads controls result.steps)
    queue = taken ++ result.machine.console.input ∧
      (∀ count state next, machine.Reaches .live controls count state →
        machine.Reaches .live controls (count + 1) next → state.AtRead machine.program.symbols →
        next.tape = state.tape.modify fun cell =>
          (queue[machine.reads controls count]?.map UInt8.toInt8).getD (machine.eof.apply cell)) ∧
      (∀ events, ∃ consumed, queue ++ events.flatMap Event.received =
        consumed ++ (machine.session events).console.input) ∧
      (¬machine.Starves controls result.steps → ∀ more eof,
        (machine.refeed (taken ++ more) eof).run fuel .live controls =
          { result with machine := result.machine.refeed more eof }) ∧
      ∀ count state, machine.Reaches .live controls count state →
        ¬machine.Starves controls count → ∀ eof,
          ({ machine with eof := eof } : Machine).Reaches .live controls count state := by
  intro queue result taken
  refine ⟨?_, ?_, exists_taken_session machine, ?_, ?_⟩
  · rw [input_run, List.take_append_drop]
  · intro count state next hs hn hread
    exact tape_of_reaches hs hn hread
  · intro hf more eof
    exact run_refeed hf more eof
  · intro count state hr hf eof
    exact reaches_of_eof hr hf eof

/-- A loop that reads up to a zero takes two of three bytes, the second of them by its fifth
instruction, and does the same with other bytes queued behind them. -/
theorem unread_input_is_inert_read_to_zero :
    let program : Program := ⟨#[.increment, .brace .opening, .input, .brace .closing]⟩
    let machine : Machine := fresh program 1 .minusOne (Console.ofInput [3, 0, 9])
    let result := machine.run 7 .live Controls.none
    let state : State := ⟨⟨#[3], 0⟩, 2, 4, Console.ofInput [0, 9], #[]⟩
    let next : State := ⟨⟨#[0], 0⟩, 3, 5, Console.ofInput [9], #[]⟩
    (machine.reads Controls.none result.steps = 2 ∧ result.machine.console.input = [9]) ∧
      (machine.Reaches .live Controls.none 4 state ∧ machine.Reaches .live Controls.none 5 next ∧
        state.AtRead program.symbols ∧ next.tape = state.tape.modify fun _ => 0) ∧
      ¬machine.Starves Controls.none result.steps ∧
      (fresh program 1 .zero (Console.ofInput [3, 0, 1, 2])).run 7 .live Controls.none =
        ⟨.halted, fresh program 1 .zero (Console.ofInput [1, 2]), 6, []⟩ ∧
      (fresh program 1 .zero (Console.ofInput [3, 0, 9])).Reaches .live Controls.none 5 next := by
  intro program machine result state next
  have hj : machine.program.jumps = .ok #[none, some 3, none, some 1] := rfl
  have hresult : machine.run 7 .live Controls.none =
      ⟨.halted, fresh program 1 .minusOne (Console.ofInput [9]), 6, []⟩ := rfl
  have hreads : machine.reads Controls.none 6 = 2 := rfl
  have hs : machine.Reaches .live Controls.none 4 state := ⟨_, hj, rfl⟩
  have hn : machine.Reaches .live Controls.none 5 next := ⟨_, hj, rfl⟩
  have hf : ¬machine.Starves Controls.none 6 := by decide
  obtain ⟨-, hstores, -, hsame, heof⟩ := unread_input_is_inert machine 7 Controls.none
  simp only [hresult, hreads] at hsame
  refine ⟨⟨hreads, rfl⟩, ⟨hs, hn, rfl, ?_⟩, hf, ?_, ?_⟩
  · exact hstores 4 state next hs hn rfl
  · exact hsame hf [1, 2] .zero
  · exact heof 5 next hn (by decide) .zero

end Machine

end ScrewLang
