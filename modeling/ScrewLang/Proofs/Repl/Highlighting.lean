import ScrewLang.Proofs.Source.CodeLines
import ScrewLang.Proofs.Source.Regions
import ScrewLang.Repl.Highlight

/-!
# What the highlighting shows

The highlighting tells what would run: the characters in the style of an instruction are those of
the program, in order, and the character in the style of the terminator is the one that ends it. All
that is passed over, in comments or behind the terminator, is shown as a comment. It keeps two
marks of its own on the way through the characters where the scan of the bytes has a mode; the two
never part.
-/

namespace ScrewLang

namespace Text

/-- The first byte of a character. -/
def lead (c : Char) : UInt8 :=
  (String.utf8EncodeChar c).head String.utf8EncodeChar_ne_nil

theorem lead_of_plain {c : Char} (h : Plain c) : lead c = UInt8.ofNat c.toNat := by
  simp only [lead, utf8EncodeChar_of_plain h, List.head_cons]

theorem high_lead {c : Char} (h : ¬Plain c) : 0x80 ≤ (lead c).toNat :=
  high_of_mem_utf8EncodeChar h (List.head_mem _)

/-- A plain character is the only one that begins with its byte. -/
theorem lead_eq_iff {c d : Char} (hd : Plain d) : lead c = UInt8.ofNat d.toNat ↔ c = d := by
  have hbyte {e : Char} (he : Plain e) : (UInt8.ofNat e.toNat).toNat = e.toNat :=
    UInt8.toNat_ofNat_of_lt' (Nat.lt_trans he (by decide))
  constructor
  · intro h
    have hl : (lead c).toNat = d.toNat := by rw [h, hbyte hd]
    by_cases hc : Plain c
    · rw [lead_of_plain hc, hbyte hc] at hl
      exact Char.toNat_inj.mp hl
    · have hhigh := high_lead hc
      have hlow : d.toNat < 0x80 := hd
      omega
  · rintro rfl
    exact lead_of_plain hd

end Text

namespace Highlight

variable {text : List Char} {place : Nat}

/-! ### Characters and their styles -/

/-- A style in which instructions are shown, and nothing else. -/
def Style.IsInstruction (style : Style) : Prop :=
  style ≠ .comment ∧ style ≠ .other ∧ style ≠ .terminator

instance (style : Style) : Decidable style.IsInstruction :=
  inferInstanceAs (Decidable (style ≠ .comment ∧ style ≠ .other ∧ style ≠ .terminator))

/-- The characters of a text, each in the style of its piece. -/
def shown (text : String) : List (Style × Char) :=
  (pieces text).flatMap fun piece => piece.2.toList.map fun c => (piece.1, c)

/-- The style in which the character at a place is shown. -/
def styleAt? (text : String) (place : Nat) : Option Style :=
  (shown text)[place]?.map Prod.fst

/-- The characters put together so far, each in the style of its piece. -/
def Runs.characters (runs : Runs) : List (Style × Char) :=
  runs.toArray.toList.flatMap fun piece => piece.2.toList.map fun c => (piece.1, c)

/-- A character is added to those before it, whichever piece it goes to. -/
theorem Runs.characters_push (runs : Runs) (character : Style × Char) :
    (runs.push character).characters = runs.characters ++ [character] := by
  obtain ⟨complete, pending⟩ := runs
  obtain ⟨style, c⟩ := character
  cases pending with
  | none => simp [push, characters, toArray]
  | some piece =>
    obtain ⟨last, text⟩ := piece
    by_cases hs : last = style
    · subst hs
      rw [push_of_eq]
      by_cases ht : text = #[] <;> simp [characters, toArray, ht]
    · rw [push_of_ne hs]
      by_cases ht : text = #[] <;> simp [characters, toArray, ht]

/-- Putting characters together loses none. -/
theorem Runs.characters_foldl_push (runs : Runs) (characters : List (Style × Char)) :
    (characters.foldl push runs).characters = runs.characters ++ characters := by
  induction characters generalizing runs with
  | nil => rw [List.foldl_nil, List.append_nil]
  | cons first rest ih =>
    rw [List.foldl_cons, ih, characters_push, List.append_assoc, List.singleton_append]

theorem shown_eq_styled (text : String) : shown text = styled .start text.toList := by
  rw [shown, pieces, List.flatMap_map]
  simp only [String.toList_ofList]
  exact Runs.characters_foldl_push .empty _

theorem map_snd_styled (context : Context) (text : List Char) :
    (styled context text).map Prod.snd = text := by
  induction text generalizing context with
  | nil => rfl
  | cons c rest ih => rw [styled, List.map_cons, ih]

/-- The region that a context is in. -/
def Context.mode (context : Context) : Scan.Mode :=
  if context.terminated then .ended else if context.inComment then .comment else .code

/-- The style of a character met in a region. -/
def styleIn (mode : Scan.Mode) (c : Char) : Style :=
  if mode = .code ∧ c ≠ ';' then Style.ofCode c else .comment

theorem style_enter (context : Context) (c : Char) :
    (context.enter c).style c = styleIn context.mode c := by
  obtain ⟨inComment, terminated⟩ := context
  by_cases hc : c = ';' <;> cases inComment <;> cases terminated <;>
    simp [Context.enter, Context.style, Context.mode, styleIn, hc]

/-- A context follows the regions of the text. -/
theorem mode_leave (context : Context) (c : Char) :
    ((context.enter c).leave c).mode = context.mode.step c := by
  obtain ⟨inComment, terminated⟩ := context
  by_cases ht : c = '~'
  · subst ht
    cases inComment <;> cases terminated <;> rfl
  · by_cases hc : c = ';'
    · subst hc
      cases inComment <;> cases terminated <;> rfl
    · by_cases hn : c = '\n' <;> cases inComment <;> cases terminated <;>
        simp [Context.enter, Context.leave, Context.mode, Scan.Mode.step, ht, hc, hn]

/-- The style of a character is told by the character and the region that the text before it leads
to. -/
theorem getElem?_styled (context : Context) (text : List Char) (place : Nat) :
    (styled context text)[place]? = text[place]?.map fun c =>
      (styleIn ((text.take place).foldl Scan.Mode.step context.mode) c, c) := by
  induction text generalizing context place with
  | nil => rfl
  | cons c rest ih =>
    rw [styled, style_enter]
    cases place with
    | zero => rfl
    | succ place =>
      rw [List.getElem?_cons_succ, ih, mode_leave, List.getElem?_cons_succ, List.take_succ_cons,
        List.foldl_cons]

/-! ### The regions of a text -/

/-- A terminator stands before a place. -/
def Ended (text : List Char) (place : Nat) : Prop :=
  ∃ k < place, text[k]? = some '~'

/-- A comment mark stands at a place or before it, with no newline in between. -/
def Commented (text : List Char) (place : Nat) : Prop :=
  ∃ mark ≤ place, text[mark]? = some ';' ∧ ∀ k < place, mark < k → text[k]? ≠ some '\n'

/-- A character leads to the same region as its first byte. -/
theorem step_eq_next (mode : Scan.Mode) (c : Char) :
    mode.step c = mode.next (Text.lead c) := by
  have ht : Text.lead c = Scan.terminator ↔ c = '~' := Text.lead_eq_iff (d := '~') (by decide)
  have hc : Text.lead c = Scan.commentMark ↔ c = ';' := Text.lead_eq_iff (d := ';') (by decide)
  have hn : Text.lead c = newline ↔ c = '\n' := Text.lead_eq_iff (d := '\n') (by decide)
  simp only [Scan.Mode.step, Scan.Mode.next, ht, hc, hn]

/-- The region that some text leads to. -/
theorem foldl_step (text : List Char) (place : Nat) :
    (text.take place).foldl Scan.Mode.step .code = Scan.modeAt (text.map Text.lead) place := by
  have hnext : Scan.Mode.step = fun mode c => mode.next (Text.lead c) := by
    funext mode c
    exact step_eq_next mode c
  rw [Scan.modeAt, ← List.map_take, List.foldl_map, hnext]

theorem getElem?_map_lead {c : Char} (hc : Text.Plain c) :
    (text.map Text.lead)[place]? = some (UInt8.ofNat c.toNat) ↔ text[place]? = some c := by
  rw [List.getElem?_map, Option.map_eq_some_iff]
  constructor
  · rintro ⟨d, hd, hl⟩
    rw [hd, (Text.lead_eq_iff hc).mp hl]
  · intro h
    exact ⟨c, h, Text.lead_of_plain hc⟩

/-- The text before a place ends in code when it has no terminator and its comments are closed. -/
theorem foldl_step_eq_code_iff (h : place ≤ text.length) :
    (text.take place).foldl Scan.Mode.step .code = .code ↔
      ¬Ended text place ∧ ∀ mark < place, text[mark]? = some ';' →
        ∃ close < place, mark < close ∧ text[close]? = some '\n' := by
  have ht (k : Nat) : (text.map Text.lead)[k]? = some Scan.terminator ↔ text[k]? = some '~' :=
    getElem?_map_lead (c := '~') (by decide)
  have hc (k : Nat) : (text.map Text.lead)[k]? = some Scan.commentMark ↔ text[k]? = some ';' :=
    getElem?_map_lead (c := ';') (by decide)
  have hn (k : Nat) : (text.map Text.lead)[k]? = some newline ↔ text[k]? = some '\n' :=
    getElem?_map_lead (c := '\n') (by decide)
  rw [foldl_step, Scan.modeAt_eq_code_iff (by rwa [List.length_map])]
  simp only [ht, hc, hn, Ended]

/-- A character is shown as code unless it stands behind the terminator or in a comment. -/
theorem code_iff_of_getElem? {c : Char} (h : text[place]? = some c) :
    (text.take place).foldl Scan.Mode.step .code = .code ∧ c ≠ ';' ↔
      ¬(Ended text place ∨ Commented text place) := by
  have hl := (List.getElem?_eq_some_iff.mp h).1
  rw [foldl_step_eq_code_iff (Nat.le_of_lt hl), not_or, and_assoc]
  apply and_congr_right
  intro _
  constructor
  · rintro ⟨hclosed, hmark⟩ ⟨mark, hm, hs, hopen⟩
    have hlt : mark < place := by
      apply Nat.lt_of_le_of_ne hm
      rintro rfl
      rw [h] at hs
      exact hmark (Option.some.inj hs)
    obtain ⟨close, hclose, hafter, hnewline⟩ := hclosed mark hlt hs
    exact hopen close hclose hafter hnewline
  · intro hcode
    constructor
    · intro mark hm hs
      apply Classical.byContradiction
      intro hnone
      apply hcode
      refine ⟨mark, Nat.le_of_lt hm, hs, fun k hk hafter hnewline => ?_⟩
      exact hnone ⟨k, hk, hafter, hnewline⟩
    · rintro rfl
      exact hcode ⟨place, Nat.le_refl place, h, fun k hk hafter => by omega⟩

/-! ### The styles of code -/

private theorem style_table : ∀ i : Fin 0x80,
    ((Style.ofCode (Char.ofNat i.val)).IsInstruction ↔ Char.ofNat i.val ∈ Symbol.alphabet) ∧
      (Style.ofCode (Char.ofNat i.val) = .terminator ↔ Char.ofNat i.val = '~') ∧
      Style.ofCode (Char.ofNat i.val) ≠ .comment := by
  decide +kernel

private theorem ofCode_of_not_plain {c : Char} (h : ¬Text.Plain c) : Style.ofCode c = .other := by
  unfold Style.ofCode
  split
  case h_12 =>
    rw [if_neg]
    rintro ⟨-, hle⟩
    exact h (Nat.lt_of_le_of_lt hle (by decide))
  all_goals exact absurd (by decide) h

/-- What the style of a character of code tells. -/
theorem ofCode_spec (c : Char) :
    ((Style.ofCode c).IsInstruction ↔ c ∈ Symbol.alphabet) ∧
      (Style.ofCode c = .terminator ↔ c = '~') ∧ Style.ofCode c ≠ .comment := by
  by_cases h : Text.Plain c
  · have table := style_table ⟨c.toNat, h⟩
    simpa only [Char.ofNat_toNat] using table
  · have hmem : c ∉ Symbol.alphabet := fun hc => h (Symbol.plain_of_mem_alphabet hc)
    have hne : c ≠ '~' := by
      rintro rfl
      exact h (by decide)
    simp [ofCode_of_not_plain h, Style.IsInstruction, hmem, hne]

/-- A character adds to the code what it is shown to add. -/
theorem keeps_eq (mode : Scan.Mode) (c : Char) :
    (mode.step c).keeps c = if (styleIn mode c).IsInstruction then [c] else [] := by
  have hspec := (ofCode_spec c).1
  by_cases h : mode = .code ∧ c ≠ ';'
  · obtain ⟨rfl, hc⟩ := h
    have hstyle : styleIn .code c = Style.ofCode c := if_pos ⟨rfl, hc⟩
    by_cases ht : c = '~'
    · subst ht
      rfl
    · have hstep : Scan.Mode.code.step c = .code := by simp [Scan.Mode.step, ht, hc]
      simp only [hstep, hstyle, hspec, Scan.Mode.keeps, ↓reduceIte, List.filter_cons,
        List.filter_nil, decide_eq_true_eq]
  · have hstyle : styleIn mode c = .comment := if_neg h
    have hnot : ¬Style.comment.IsInstruction := by decide
    rw [hstyle, if_neg hnot]
    by_cases hn : c = '\n'
    · subst hn
      cases mode <;> rfl
    · have hstep : mode.step c ≠ .code := by
        unfold Scan.Mode.step
        split
        · simp
        · split
          · simp
          · next hs => exact fun hm => h ⟨hm, hs⟩
      rw [Scan.Mode.keeps, if_neg hstep]

/-- The characters shown as instructions are the code of the text. -/
theorem instructions_styled (context : Context) (text : List Char) :
    ((styled context text).filter fun character => character.1.IsInstruction).map Prod.snd =
      Scan.codeFrom context.mode text := by
  induction text generalizing context with
  | nil => rw [Scan.codeFrom_nil]; rfl
  | cons c rest ih =>
    rw [Scan.codeFrom_cons, ← mode_leave, ← ih, mode_leave, keeps_eq, styled, style_enter,
      List.filter_cons]
    simp only [decide_eq_true_eq]
    split
    · rfl
    · rfl

theorem styleAt?_eq (text : String) (place : Nat) :
    styleAt? text place = text.toList[place]?.map fun c =>
      styleIn ((text.toList.take place).foldl Scan.Mode.step .code) c := by
  rw [styleAt?, shown_eq_styled, getElem?_styled, Option.map_map]
  rfl

/-- A character is shown as a comment where it is passed over. -/
theorem styleAt?_eq_comment_iff {text : String} {c : Char} (h : text.toList[place]? = some c) :
    styleAt? text place = some .comment ↔
      Ended text.toList place ∨ Commented text.toList place := by
  rw [styleAt?_eq, h, Option.map_some, Option.some.injEq, styleIn]
  split
  · next hcode =>
    exact iff_of_false (ofCode_spec c).2.2 ((code_iff_of_getElem? h).mp hcode)
  · next hcode =>
    exact iff_of_true rfl (Classical.not_not.mp fun hn => hcode ((code_iff_of_getElem? h).mpr hn))

/-- The terminator is shown where it ends the code. -/
theorem styleAt?_eq_terminator_iff (text : String) (place : Nat) :
    styleAt? text place = some .terminator ↔
      text.toList[place]? = some '~' ∧
        ¬(Ended text.toList place ∨ Commented text.toList place) := by
  rw [styleAt?_eq]
  cases h : text.toList[place]? with
  | none => simp
  | some c =>
    rw [← code_iff_of_getElem? h, Option.map_some, Option.some.injEq, Option.some.injEq, styleIn]
    split
    · next hcode => simp [(ofCode_spec c).2.1, hcode]
    · next hcode => simp [hcode]

/-- The highlighting shows just what runs. The characters in the style of an instruction are the
text form of the program without its terminator. A character is in the style of the terminator
exactly when it is a terminator, none stands before it and it is in no comment; so there is one at
most. And a character is in the style of a comment exactly when a terminator stands before it, or a
comment mark stands there or before it with no newline in between. -/
theorem highlighting_shows_program (text : String) :
    let characters := text.toList
    (shown text).map Prod.snd = characters ∧
      ((shown text).filter fun character => character.1.IsInstruction).map Prod.snd =
        (Program.textOf text).toList.dropLast ∧
      (∀ place, styleAt? text place = some .terminator ↔
        characters[place]? = some '~' ∧ ¬Ended characters place ∧ ¬Commented characters place) ∧
      (∀ first second, styleAt? text first = some .terminator →
        styleAt? text second = some .terminator → first = second) ∧
      ∀ place < characters.length, styleAt? text place = some .comment ↔
        Ended characters place ∨ Commented characters place := by
  intro characters
  have hterminator (place : Nat) : styleAt? text place = some .terminator ↔
      characters[place]? = some '~' ∧ ¬Ended characters place ∧ ¬Commented characters place := by
    rw [styleAt?_eq_terminator_iff, not_or]
  have hnone {first second : Nat} (hf : styleAt? text first = some .terminator)
      (hs : styleAt? text second = some .terminator) : ¬first < second := by
    intro hlt
    rw [hterminator] at hf hs
    exact hs.2.1 ⟨first, hlt, hf.1⟩
  refine ⟨?_, ?_, hterminator, ?_, ?_⟩
  · rw [shown_eq_styled, map_snd_styled]
  · rw [shown_eq_styled, instructions_styled, Program.toList_textOf, List.dropLast_concat]
    rfl
  · intro first second hf hs
    have hfirst := hnone hf hs
    have hsecond := hnone hs hf
    omega
  · intro place hp
    exact styleAt?_eq_comment_iff (List.getElem?_eq_getElem hp)

/-- A comment is shown as one through its newline, and so is what follows the terminator; a
terminator in a comment is not shown as such. -/
theorem highlighting_shows_program_two_texts :
    let text := "é+;\x7b\n>~-"
    let hidden := "+;~"
    ((shown text).filter fun character => character.1.IsInstruction).map Prod.snd = ['+', '>'] ∧
      styleAt? text 6 = some .terminator ∧
      (∀ place, styleAt? text place = some .terminator → place = 6) ∧
      (4 < text.toList.length ∧ Commented text.toList 4 ∧ styleAt? text 4 = some .comment) ∧
      (7 < text.toList.length ∧ Ended text.toList 7 ∧ styleAt? text 7 = some .comment) ∧
      styleAt? hidden 2 ≠ some .terminator := by
  intro text hidden
  obtain ⟨-, hcode, hterminator, hunique, hcomment⟩ := highlighting_shows_program text
  obtain ⟨-, -, hhidden, -, -⟩ := highlighting_shows_program hidden
  have hsix : styleAt? text 6 = some .terminator := by decide
  have hfour : Commented text.toList 4 := ⟨2, by decide, by decide, by decide⟩
  have hseven : Ended text.toList 7 := ⟨6, by decide, by decide⟩
  have htwo : Commented hidden.toList 2 := ⟨1, by decide, by decide, by decide⟩
  refine ⟨hcode.trans (by decide), hsix, ?_, ?_, ?_, ?_⟩
  · intro place hp
    exact hunique place 6 hp hsix
  · exact ⟨by decide, hfour, (hcomment 4 (by decide)).mpr (.inr hfour)⟩
  · exact ⟨by decide, hseven, (hcomment 7 (by decide)).mpr (.inl hseven)⟩
  · intro ht
    exact ((hhidden 2).mp ht).2.2 htwo

end Highlight

end ScrewLang
