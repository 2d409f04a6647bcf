import ScrewLang.Proofs.Machine.Plans
import ScrewLang.Proofs.Source.Items

/-!
# Balanced braces, in a text and in its program

Validation walks over the code bytes of a text and keeps the locations of open braces; the jump
table of the program is filled by a walk over its symbols that keeps their places. The two walks
stay in step: they accept the same texts, and they blame the same brace.
-/

namespace ScrewLang

namespace Brace

private theorem ofByte?_table : ∀ i : Fin 256,
    ofByte? (UInt8.ofNat i.val) = (Symbol.ofByte? (UInt8.ofNat i.val)).bind Symbol.brace? := by
  decide +kernel

/-- A byte writes a brace exactly when the symbol that it writes is one. -/
theorem ofByte?_eq (b : UInt8) : ofByte? b = (Symbol.ofByte? b).bind Symbol.brace? := by
  have table := ofByte?_table ⟨b.toNat, b.toNat_lt⟩
  rwa [UInt8.ofNat_toNat] at table

end Brace

namespace Validation

/-- The brace word that the code bytes of a text write. -/
private def wordOf (items : List Scan.Item) : List (Option Brace) :=
  (items.filterMap fun item => Symbol.ofByte? item.byte).map Symbol.brace?

/-- The brace that both walks blame: one that was open before, or one among the items. -/
private def Blamed (items : List Scan.Item) (index : Nat) (opened : List (Location × Nat))
    (brace : Brace) (location : Location) (place : Nat) : Prop :=
  brace = .opening ∧ (location, place) ∈ opened ∨
    ∃ k item, (items.filter fun item => (Symbol.ofByte? item.byte).isSome)[k]? = some item ∧
      place = index + k ∧ item.location = location ∧
      Symbol.ofByte? item.byte = some (.brace brace)

private theorem Blamed.cons {item : Scan.Item} {items : List Scan.Item} {index : Nat}
    {opened : List (Location × Nat)} {brace : Brace} {location : Location} {place : Nat}
    {symbol : Symbol} (hs : Symbol.ofByte? item.byte = some symbol)
    (h : Blamed items (index + 1) opened brace location place) :
    Blamed (item :: items) index opened brace location place := by
  rcases h with h | ⟨k, other, hk, hp, hl, hb⟩
  · exact .inl h
  · refine .inr ⟨k + 1, other, ?_, by omega, hl, hb⟩
    rw [List.filter_cons_of_pos (by simp [hs])]
    exact hk

private theorem Blamed.self {item : Scan.Item} {items : List Scan.Item} {index : Nat}
    {opened : List (Location × Nat)} {brace : Brace}
    (hs : Symbol.ofByte? item.byte = some (.brace brace)) :
    Blamed (item :: items) index opened brace item.location index := by
  refine .inr ⟨0, item, ?_, rfl, rfl, hs⟩
  rw [List.filter_cons_of_pos (by simp [hs])]
  rfl

/-- The two walks, with the same braces open, end alike. -/
private theorem walks_agree (items : List Scan.Item) (index : Nat) (opened : List (Location × Nat))
    (table : Jumps.Table) :
    (balance (opened.map Prod.fst) items = .ok () ∧
      ∃ filled, Jumps.fill index (opened.map Prod.snd) table (wordOf items) = .ok filled) ∨
    ∃ brace location place,
      balance (opened.map Prod.fst) items = .error (.unbalancedBraces brace location) ∧
      Jumps.fill index (opened.map Prod.snd) table (wordOf items) = .error place ∧
      Blamed items index opened brace location place := by
  induction items generalizing index opened table with
  | nil =>
    cases opened with
    | nil => exact .inl ⟨rfl, table, rfl⟩
    | cons first outer =>
      exact .inr ⟨.opening, first.1, first.2, rfl, rfl, .inl ⟨rfl, List.mem_cons_self⟩⟩
  | cons item items ih =>
    rw [balance_cons, Brace.ofByte?_eq]
    cases hs : Symbol.ofByte? item.byte with
    | none =>
      have hw : wordOf (item :: items) = wordOf items := by simp [wordOf, hs]
      rw [hw]
      refine (ih index opened table).imp_right ?_
      rintro ⟨brace, location, place, hb, hf, hm⟩
      refine ⟨brace, location, place, hb, hf, ?_⟩
      rwa [Blamed, List.filter_cons_of_neg (by simp [hs])]
    | some symbol =>
      have hw : wordOf (item :: items) = symbol.brace? :: wordOf items := by simp [wordOf, hs]
      rw [hw, Option.bind_some]
      cases hb : symbol.brace? with
      | none =>
        rw [Jumps.fill_none]
        refine (ih (index + 1) opened table).imp_right ?_
        rintro ⟨brace, location, place, hb, hf, hm⟩
        exact ⟨brace, location, place, hb, hf, hm.cons hs⟩
      | some side =>
        obtain rfl := Symbol.eq_of_brace? hb
        cases side with
        | opening =>
          rw [Jumps.fill_opening]
          refine (ih (index + 1) ((item.location, index) :: opened) table).imp_right ?_
          rintro ⟨brace, location, place, hb, hf, hm⟩
          refine ⟨brace, location, place, hb, hf, ?_⟩
          rcases hm with ⟨rfl, hm⟩ | hm
          · rcases List.mem_cons.mp hm with he | hm
            · cases he
              exact .self hs
            · exact .inl ⟨rfl, hm⟩
          · exact Blamed.cons hs (.inr hm)
        | closing =>
          cases opened with
          | nil => exact .inr ⟨.closing, item.location, index, rfl, rfl, .self hs⟩
          | cons first outer =>
            refine (ih (index + 1) outer (Jumps.link table first.2 index)).imp_right ?_
            rintro ⟨brace, location, place, hb, hf, hm⟩
            refine ⟨brace, location, place, hb, hf, ?_⟩
            rcases hm with ⟨rfl, hm⟩ | hm
            · exact .inl ⟨rfl, List.mem_cons_of_mem first hm⟩
            · exact Blamed.cons hs (.inr hm)

/-- Validation accepts the braces of a text exactly when its program has a jump table; otherwise
both blame the same instruction. -/
theorem checkBraces_or_blame (source : List UInt8) :
    (checkBraces source = .ok () ∧ ∃ jumps, (Program.ofSource source).jumps = .ok jumps) ∨
    ∃ brace item place, checkBraces source = .error (.unbalancedBraces brace item.location) ∧
      (Program.ofSource source).jumps = .error place ∧
      (Scan.ofSource source).instructions[place]? = some item ∧
      Symbol.ofByte? item.byte = some (.brace brace) := by
  rcases walks_agree (Scan.ofSource source).items 0 []
      (Array.replicate (wordOf (Scan.ofSource source).items).length none) with h | h
  · exact .inl h
  · obtain ⟨brace, location, place, hb, hf, ⟨-, hm⟩ | ⟨k, item, hk, rfl, rfl, hs⟩⟩ := h
    · cases hm
    · rw [Nat.zero_add] at hf
      exact .inr ⟨brace, item, k, hb, hf, hk, hs⟩

end Validation

/-- A text compiles exactly when it has a terminator without a NUL byte before it and balanced
braces. -/
theorem Program.compile_eq_ok_iff {source : List UInt8} {program : Program} :
    compile source = .ok program ↔
      Validation.checkTerminator source = .ok () ∧ Validation.checkBraces source = .ok () ∧
        program = ofSource source := by
  unfold compile Validation.validate
  cases ht : Validation.checkTerminator source with
  | error fault => simp [bind, Except.bind]
  | ok _ =>
    cases hb : Validation.checkBraces source with
    | error fault => simp [bind, Except.bind]
    | ok _ => simp [bind, Except.bind, pure, Except.pure, eq_comm]

/-- A text that does not compile fails as its validation does. -/
theorem Program.compile_eq_error_iff {source : List UInt8} {fault : Validation.Fault} :
    compile source = .error fault ↔ Validation.validate source = .error fault := by
  unfold compile
  cases hv : Validation.validate source with
  | error other => simp [bind, Except.bind]
  | ok _ => simp [bind, Except.bind, pure, Except.pure]

/-- A text that passes validation compiles to its symbols. -/
theorem Program.compile_of_validate {source : List UInt8}
    (h : Validation.validate source = .ok ()) : compile source = .ok (ofSource source) := by
  rw [compile, h]
  rfl

/-- Validation and the machine agree on braces. They accept the same texts; where they do not, they
blame the same brace, which stands at the offset and is the instruction that each of them names. So
an accepted text never fails on a brace, and a rejected one fails on it before anything has
happened. -/
theorem braces_agree (source : List UInt8) :
    let program := Program.ofSource source
    (Validation.checkBraces source = .ok () ↔ ∃ jumps, program.jumps = .ok jumps) ∧
    (∀ fault place, Validation.checkBraces source = .error fault → program.jumps = .error place →
      ∃ brace location, fault = .unbalancedBraces brace location ∧
        program.symbols[place]? = some (.brace brace) ∧
        source[location.offset]? = some (Symbol.brace brace).toByte ∧
        (Scan.ofSource source).instructions[place]?.map Scan.Item.location = some location ∧
        place = ((Scan.ofSource source).instructions.filter
          fun item => item.location.offset < location.offset).length) ∧
    (∀ accepted, Program.compile source = .ok accepted →
      ∀ tape eof console fuel mode controls place,
        ((⟨accepted, tape, eof, console⟩ : Machine).run fuel mode controls).outcome ≠
          .failed (.unmatchedBrace place)) ∧
    ∀ fault, Validation.checkBraces source = .error fault →
      ∃ place, program.jumps = .error place ∧ ∀ tape eof console fuel mode controls,
        (⟨program, tape, eof, console⟩ : Machine).run fuel mode controls =
          ⟨.failed (.unmatchedBrace place), ⟨program, tape, eof, console⟩, 0, []⟩ := by
  intro program
  rcases Validation.checkBraces_or_blame source with
    ⟨hb, jumps, hj⟩ | ⟨brace, item, place, hb, hj, hi, hs⟩
  · refine ⟨⟨fun _ => ⟨jumps, hj⟩, fun _ => hb⟩, ?_, ?_, ?_⟩
    · intro fault place hf
      rw [hb] at hf
      cases hf
    · intro accepted hc tape eof console fuel mode controls place
      obtain ⟨-, -, rfl⟩ := Program.compile_eq_ok_iff.mp hc
      exact Machine.outcome_run_ne_unmatchedBrace hj
    · intro fault hf
      rw [hb] at hf
      cases hf
  · refine ⟨⟨fun h => ?_, fun ⟨jumps, h⟩ => ?_⟩, ?_, ?_, ?_⟩
    · rw [hb] at h
      cases h
    · rw [hj] at h
      cases h
    · intro fault other hf ho
      rw [hb] at hf
      rw [hj] at ho
      cases hf
      cases ho
      have hm : item ∈ (Scan.ofSource source).items :=
        (List.mem_filter.mp (List.mem_of_getElem? hi)).1
      obtain ⟨k, hk, hbyte⟩ := Scan.exists_offset_of_mem_onward hm
      have ho : item.location.offset = k := hk.trans (Nat.zero_add k)
      refine ⟨brace, item.location, rfl, ?_, ?_, ?_, ?_⟩
      · rw [Program.symbols_ofSource, hi, Option.bind_some, hs]
      · rw [ho, hbyte, Symbol.toByte_of_ofByte? hs]
      · rw [hi, Option.map_some]
      · exact (Scan.length_filter_instructions hi).symm
    · intro accepted hc
      obtain ⟨-, hok, -⟩ := Program.compile_eq_ok_iff.mp hc
      rw [hb] at hok
      cases hok
    · intro fault _
      exact ⟨place, hj, fun tape eof console fuel mode controls =>
        Machine.run_of_unmatched fuel mode controls hj⟩

/-- Braces in comments do not count: of the texts `;{` and `+}~`, on two lines, and `{;}` and `}~`,
the first is rejected for its last brace and the second is accepted. -/
theorem braces_agree_comments :
    let rejected : List UInt8 := [0x3B, 0x7B, 0x0A, 0x2B, 0x7D, 0x7E]
    let accepted : List UInt8 := [0x7B, 0x3B, 0x7D, 0x0A, 0x7D, 0x7E]
    (Validation.checkBraces rejected = .error (.unbalancedBraces .closing ⟨⟨2, 2⟩, 4⟩) ∧
      (Program.ofSource rejected).jumps = .error 1 ∧
      (Program.ofSource rejected).symbols[1]? = some (.brace .closing) ∧
      rejected[4]? = some (Symbol.brace .closing).toByte ∧
      ∀ tape eof console fuel mode controls,
        (Machine.run fuel mode controls ⟨Program.ofSource rejected, tape, eof, console⟩).outcome =
          .failed (.unmatchedBrace 1)) ∧
    Program.compile accepted = .ok ⟨#[.brace .opening, .brace .closing]⟩ ∧
      (∃ jumps, (Program.ofSource accepted).jumps = .ok jumps) ∧
      ∀ tape eof console fuel mode controls place,
        (Machine.run fuel mode controls
          ⟨⟨#[.brace .opening, .brace .closing]⟩, tape, eof, console⟩).outcome ≠
          .failed (.unmatchedBrace place) := by
  intro rejected accepted
  have hfault : Validation.checkBraces rejected =
      .error (.unbalancedBraces .closing ⟨⟨2, 2⟩, 4⟩) := rfl
  have hj : (Program.ofSource rejected).jumps = .error 1 := rfl
  have hok : Validation.checkBraces accepted = .ok () := rfl
  have hc : Program.compile accepted = .ok ⟨#[.brace .opening, .brace .closing]⟩ := rfl
  obtain ⟨-, hblame, -, hrun⟩ := braces_agree rejected
  obtain ⟨hagree, -, hnever, -⟩ := braces_agree accepted
  refine ⟨⟨hfault, hj, ?_⟩, hc, hagree.mp hok, hnever _ hc⟩
  obtain ⟨brace, location, hf, hs, hbyte, -⟩ := hblame _ _ hfault hj
  cases hf
  obtain ⟨place, hp, hr⟩ := hrun _ hfault
  rw [hj] at hp
  cases hp
  refine ⟨hs, hbyte, fun tape eof console fuel mode controls => ?_⟩
  rw [hr]

end ScrewLang
