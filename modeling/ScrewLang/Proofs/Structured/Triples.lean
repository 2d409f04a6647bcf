import ScrewLang.Proofs.Structured.Execution

/-!
# Total correctness of sequences of symbols

`Ensures P symbols Q` says that `symbols` write a plain block, one without dumps and stray symbols,
which from every store with `P` comes to its end, in a store with `Q`. Plain blocks can be read back
wherever they are written, so that the rules below put sequences of symbols together without a look
at the tree that a larger sequence is read as.
-/

namespace ScrewLang

namespace Structured

/-- A leaf whose symbol means the same whatever follows it. -/
def Leaf.Plain : Leaf → Prop
  | .right | .left | .increment | .decrement | .output | .input => True
  | .dump _ _ | .malformed _ | .stray _ => False

namespace Block

/-- All leaves of a block are plain. -/
def Plain : Block → Prop
  | .done => True
  | .leaf first rest => first.Plain ∧ rest.Plain
  | .loop body rest => body.Plain ∧ rest.Plain

/-- A block followed by another. -/
def append : Block → Block → Block
  | .done, next => next
  | .leaf first rest, next => .leaf first (rest.append next)
  | .loop body rest, next => .loop body (rest.append next)

theorem append_done (block : Block) : block.append .done = block := by
  induction block with
  | done => rfl
  | leaf first rest ih => rw [append, ih]
  | loop body rest _ ih => rw [append, ih]

theorem symbols_append (block next : Block) :
    (block.append next).symbols = block.symbols ++ next.symbols := by
  induction block with
  | done => rfl
  | leaf first rest ih => rw [append, symbols, ih, symbols, List.append_assoc]
  | loop body rest _ ih => simp only [append, symbols, ih, List.append_assoc, List.cons_append]

theorem Plain.append {block next : Block} (hb : block.Plain) (hn : next.Plain) :
    (block.append next).Plain := by
  induction block with
  | done => exact hn
  | leaf first rest ih => exact ⟨hb.1, ih hb.2⟩
  | loop body rest _ ih => exact ⟨hb.1, ih hb.2⟩

end Block

/-- A plain leaf is read from its symbol. -/
theorem Leaf.Plain.read {first : Leaf} (h : first.Plain) {rest : List Symbol} {next : Block}
    {outer : List Block} (hr : Block.read rest = some (next, outer)) :
    Block.read (first.symbols ++ rest) = some (.leaf first next, outer) := by
  cases first with
  | dump | malformed | stray => exact h.elim
  | _ => simp [Leaf.symbols, Block.read, Symbol.brace?, Leaf.ofSymbol, Leaf.width, hr]

namespace Block

/-- A plain block is read from the symbols that write it, whatever follows them. -/
theorem Plain.read {block : Block} (h : block.Plain) {rest : List Symbol} {next : Block}
    {outer : List Block} (hr : Block.read rest = some (next, outer)) :
    Block.read (block.symbols ++ rest) = some (block.append next, outer) := by
  induction block generalizing rest next outer with
  | done => exact hr
  | leaf first tail ih =>
    rw [symbols, List.append_assoc]
    exact h.1.read (ih h.2 hr)
  | loop body tail ihb iht =>
    have hclosing : Block.read (.brace .closing :: (tail.symbols ++ rest)) =
        some (.done, tail.append next :: outer) := by
      rw [Block.read, iht h.2 hr]
      rfl
    have hbody := ihb h.1 hclosing
    rw [append_done] at hbody
    rw [symbols, List.append_assoc, List.cons_append, List.cons_append, Block.read, hbody]
    rfl

/-- A plain block is the syntax tree of its symbols. -/
theorem Plain.parse? {block : Block} (h : block.Plain) :
    Block.parse? block.symbols = some block := by
  have hr : Block.read [] = some (.done, []) := by rw [Block.read]
  have hb := h.read hr
  rw [List.append_nil, append_done] at hb
  simp only [Block.parse?, hb]

/-- Plain blocks that write the same symbols are the same. -/
theorem Plain.eq_of_symbols {first second : Block} (hf : first.Plain) (hs : second.Plain)
    (h : first.symbols = second.symbols) : first = second := by
  have hp := hs.parse?
  rw [← h, hf.parse?] at hp
  exact Option.some.inj hp

end Block

/-- A block that comes to its end is followed by the next one. -/
theorem Exec.append {eof : EofPolicy} {place : Nat} {block next : Block}
    {store middle final : Store} {ending : Option Machine.Fault}
    (hb : Exec eof place block store none middle)
    (hn : Exec eof (place + block.width) next middle ending final) :
    Exec eof place (block.append next) store ending final := by
  generalize he : (none : Option Machine.Fault) = first at hb
  induction hb with
  | done => exact hn
  | leaf head tail ih =>
    rw [Block.width, ← Nat.add_assoc] at hn
    exact .leaf head (ih hn he)
  | leafFails => cases he
  | @skip place body rest _ _ _ zero tail ih =>
    have hw : place + (Block.loop body rest).width = place + body.width + 2 + rest.width := by
      rw [Block.width]
      omega
    rw [hw] at hn
    exact .skip zero (ih hn he)
  | again nonzero head tail _ ih => exact .again nonzero head (ih hn he)
  | bodyFails => cases he

/-- A block ends in one way only. -/
theorem Exec.unique {eof : EofPolicy} {place : Nat} {block : Block} {store final other : Store}
    {ending another : Option Machine.Fault} (h : Exec eof place block store ending final)
    (ho : Exec eof place block store another other) : ending = another ∧ final = other := by
  induction h generalizing another other with
  | done =>
    cases ho
    exact ⟨rfl, rfl⟩
  | leaf head _ ih =>
    cases ho with
    | leaf head' tail =>
      rw [head] at head'
      cases head'
      exact ih tail
    | leafFails head' =>
      rw [head] at head'
      cases head'
  | leafFails head =>
    cases ho with
    | leaf head' =>
      rw [head] at head'
      cases head'
    | leafFails head' =>
      rw [head] at head'
      cases head'
      exact ⟨rfl, rfl⟩
  | skip zero _ ih =>
    cases ho with
    | skip _ tail => exact ih tail
    | again nonzero => exact absurd zero nonzero
    | bodyFails nonzero => exact absurd zero nonzero
  | again nonzero _ _ ihb ihr =>
    cases ho with
    | skip zero => exact absurd zero nonzero
    | again _ head tail =>
      cases (ihb head).2
      exact ihr tail
    | bodyFails _ head => cases (ihb head).1
  | bodyFails nonzero _ ih =>
    cases ho with
    | skip zero => exact absurd zero nonzero
    | again _ head => cases (ih head).1
    | bodyFails _ head => exact ih head

/-- From every store with `P`, the block that some symbols write comes to its end in one with `Q`.
-/
def Ensures (P : Store → Prop) (symbols : List Symbol) (Q : Store → Prop) : Prop :=
  ∃ block : Block, block.Plain ∧ block.symbols = symbols ∧
    ∀ eof place store, P store → ∃ final, Exec eof place block store none final ∧ Q final

namespace Ensures

variable {P Q R : Store → Prop} {symbols first second body : List Symbol}

/-- The block that some symbols write may be named in advance. -/
theorem exec (h : Ensures P symbols Q) {block : Block} (hb : block.Plain)
    (hs : block.symbols = symbols) (eof : EofPolicy) (place : Nat) {store : Store} (hp : P store) :
    ∃ final, Exec eof place block store none final ∧ Q final := by
  obtain ⟨other, ho, hos, hx⟩ := h
  obtain rfl := hb.eq_of_symbols ho (hs.trans hos.symm)
  exact hx eof place store hp

/-- A precondition may be strengthened and a postcondition weakened. -/
theorem consequence {P' Q' : Store → Prop} (h : Ensures P symbols Q)
    (pre : ∀ store, P' store → P store) (post : ∀ store, Q store → Q' store) :
    Ensures P' symbols Q' := by
  obtain ⟨block, hb, hs, hx⟩ := h
  refine ⟨block, hb, hs, fun eof place store hp => ?_⟩
  obtain ⟨final, hf, hq⟩ := hx eof place store (pre store hp)
  exact ⟨final, hf, post final hq⟩

/-- Of what a precondition says to exist, any instance will do. -/
theorem exists_pre {α : Type} [Inhabited α] {P : α → Store → Prop}
    (h : ∀ a, Ensures (P a) symbols Q) : Ensures (fun store => ∃ a, P a store) symbols Q := by
  obtain ⟨block, hb, hs, -⟩ := h default
  refine ⟨block, hb, hs, ?_⟩
  rintro eof place store ⟨a, hp⟩
  exact (h a).exec hb hs eof place hp

/-- Two postconditions of the same symbols hold of the same store. -/
theorem and (hq : Ensures P symbols Q) (hr : Ensures P symbols R) :
    Ensures P symbols (fun store => Q store ∧ R store) := by
  obtain ⟨block, hb, hs, hx⟩ := hq
  refine ⟨block, hb, hs, fun eof place store hp => ?_⟩
  obtain ⟨final, hf, hq⟩ := hx eof place store hp
  obtain ⟨other, ho, hr⟩ := hr.exec hb hs eof place hp
  obtain rfl := (hf.unique ho).2
  exact ⟨final, hf, hq, hr⟩

/-- No symbols do nothing. -/
theorem nil : Ensures P [] P :=
  ⟨.done, trivial, rfl, fun _ _ store hp => ⟨store, .done, hp⟩⟩

/-- One sequence does its work after another. -/
theorem append (hf : Ensures P first Q) (hs : Ensures Q second R) :
    Ensures P (first ++ second) R := by
  obtain ⟨a, ha, rfl, hxa⟩ := hf
  obtain ⟨b, hb, rfl, hxb⟩ := hs
  refine ⟨a.append b, ha.append hb, a.symbols_append b, fun eof place store hp => ?_⟩
  obtain ⟨middle, hm, hq⟩ := hxa eof place store hp
  obtain ⟨final, hf, hr⟩ := hxb eof (place + a.width) middle hq
  exact ⟨final, hm.append hf, hr⟩

/-- A plain leaf does what it does. -/
theorem leaf {first : Leaf} (hf : first.Plain)
    (hx : ∀ eof place store, P store → ∃ final, first.exec eof place store = .ok final ∧ Q final) :
    Ensures P first.symbols Q := by
  refine ⟨.leaf first .done, ⟨hf, trivial⟩, List.append_nil _, fun eof place store hp => ?_⟩
  obtain ⟨final, hok, hq⟩ := hx eof place store hp
  exact ⟨final, .leaf hok .done, hq⟩

/-- A loop whose body takes one off the current cell runs until the cell is zero. -/
theorem loop {I : UInt8 → Store → Prop} (hcell : ∀ v store, I v store → store.tape.get = v.toInt8)
    (hbody : ∀ v, v ≠ 0 → Ensures (I v) body (I (v - 1))) (v : UInt8) :
    Ensures (I v) (.brace .opening :: body ++ [.brace .closing]) (I 0) := by
  obtain ⟨block, hb, hs, -⟩ := hbody 1 (by decide)
  refine ⟨.loop block .done, ⟨hb, trivial⟩, ?_, fun eof place store hp => ?_⟩
  · rw [Block.symbols, hs]
    rfl
  · induction hn : v.toNat generalizing v store with
    | zero =>
      obtain rfl : v = 0 := UInt8.toNat_inj.mp hn
      exact ⟨store, .skip (hcell 0 store hp) .done, hp⟩
    | succ n ih =>
      have hv : v ≠ 0 := by
        rintro rfl
        cases hn
      have hget : store.tape.get ≠ 0 := by
        rw [hcell v store hp]
        intro hz
        exact hv (congrArg Int8.toUInt8 hz)
      have hpred : (v - 1).toNat = n := by
        rw [UInt8.toNat_sub_of_le v 1 (by rw [UInt8.le_iff_toNat_le, hn]; simp), hn]
        rfl
      obtain ⟨middle, hm, hi⟩ := (hbody v hv).exec hb hs eof (place + 1) hp
      obtain ⟨final, hf, hz⟩ := ih (v - 1) middle hi hpred
      exact ⟨final, .again hget hm hf, hz⟩

end Ensures

end Structured

end ScrewLang
