import ScrewLang.Proofs.Settings.Lookup
import ScrewLang.Proofs.Text.Numerals

/-!
# Settings written down and read back

Every value that settings can have is written down in a settings file, and the file is read back as
the same settings. The layout of the file is free: spaces and tabs around keys, values and equals
signs, comments behind the values, and underscores between the digits of numbers change nothing.
-/

namespace ScrewLang

/-! ### Numbers -/

namespace Numeral

variable {gaps : Nat → Nat} {digits : List Char} {c : Char}

/-- Digits with underscores between them, a number of them behind each digit but the last. -/
def group : (gaps : Nat → Nat) → List Char → List Char
  | _, [] => []
  | _, [digit] => [digit]
  | gaps, digit :: next :: rest =>
    digit :: (List.replicate (gaps 0) '_' ++ group (fun place => gaps (place + 1)) (next :: rest))

theorem ungroup_group (h : '_' ∉ digits) : Limit.ungroup (group gaps digits) = digits := by
  fun_induction group gaps digits with
  | case1 => rfl
  | case2 gaps digit =>
    have hne : digit ≠ '_' := fun he => h (by simp [he])
    simp [Limit.ungroup, hne]
  | case3 gaps digit next rest ih =>
    rw [List.mem_cons, not_or] at h
    have hrest := ih h.2
    rw [Limit.ungroup] at hrest
    simp [Limit.ungroup, Ne.symm h.1, hrest]

theorem mem_group (h : c ∈ group gaps digits) : c ∈ digits ∨ c = '_' := by
  fun_induction group gaps digits with
  | case1 => simp at h
  | case2 gaps digit => exact .inl h
  | case3 gaps digit next rest ih =>
    rw [List.mem_cons, List.mem_append, List.mem_replicate] at h
    rcases h with rfl | ⟨-, rfl⟩ | h
    · exact .inl List.mem_cons_self
    · exact .inr rfl
    · rcases ih h with h | h
      · exact .inl (List.mem_cons_of_mem digit h)
      · exact .inr h

/-- A number in base ten, with its digits grouped. -/
def spell (gaps : Nat → Nat) (n : Nat) : List Char :=
  group gaps (Nat.toDigits 10 n)

theorem spell_ne_nil (gaps : Nat → Nat) (n : Nat) : spell gaps n ≠ [] := by
  unfold spell
  cases h : Nat.toDigits 10 n with
  | nil => exact absurd h Nat.toDigits_ne_nil
  | cons digit rest => cases rest <;> simp [group]

theorem isDigit_or_of_mem_spell {n : Nat} (h : c ∈ spell gaps n) : c.isDigit = true ∨ c = '_' := by
  rcases mem_group h with h | h
  · exact .inl (Nat.isDigit_of_mem_toDigits (by decide) (by decide) h)
  · exact .inr h

theorem not_blank_of_mem_spell {n : Nat} (h : c ∈ spell gaps n) : Text.isBlank c = false := by
  rcases isDigit_or_of_mem_spell h with h | rfl
  · exact not_blank_of_isDigit h
  · rfl

/-- Without its underscores a number that is spelled out is read as itself. -/
theorem parse?_spell {n : Nat} (h : n < bound) :
    parse? (Limit.ungroup (spell gaps n)) = some n := by
  rw [spell, ungroup_group (by simp), parse?_eq_some_iff]
  exact .inl (decimal_toDigits h)

end Numeral

/-! ### Names -/

namespace EofPolicy

/-- Blanks around the name of a policy do not count. -/
theorem ofName?_congr {text other : String} (h : Text.trim text.toList = Text.trim other.toList) :
    ofName? text = ofName? other := by
  rw [ofName?, Text.fold, h, ofName?, Text.fold]

theorem ofName?_name (policy : EofPolicy) : ofName? policy.name = some policy := by
  cases policy <;> decide +kernel

/-- The name of a policy has neither blanks nor quotes. -/
theorem mem_name {c : Char} {policy : EofPolicy} (h : c ∈ policy.name.toList) :
    c ≠ '"' ∧ Text.isBlank c = false := by
  have hall : policy.name.toList.all (fun d => d != '"' && !Text.isBlank d) = true := by
    cases policy <;> decide
  simpa using List.all_eq_true.mp hall c h

end EofPolicy

namespace Color

variable {c : Char}

/-- Blanks around a colour do not count. -/
theorem parse?_congr {text other : String} (h : Text.trim text.toList = Text.trim other.toList) :
    parse? text = parse? other := by
  rw [parse?, h, parse?]

private theorem glyph_table : ∀ i : Fin 16,
    hexDigit? (hexGlyph i.val) = some i.val ∧ hexGlyph i.val ≠ '+' ∧ hexGlyph i.val ≠ '"' ∧
      Text.isBlank (hexGlyph i.val) = false := by
  decide +kernel

theorem hexGlyph_spec {n : Nat} (h : n < 16) :
    hexDigit? (hexGlyph n) = some n ∧ hexGlyph n ≠ '+' ∧ hexGlyph n ≠ '"' ∧
      Text.isBlank (hexGlyph n) = false :=
  glyph_table ⟨n, h⟩

/-- Two hexadecimal digits stand for the byte of which they are the halves. -/
theorem hexByte?_halves (b : UInt8) :
    hexByte? (hexGlyph (b.toNat / 16)) (hexGlyph (b.toNat % 16)) = some b := by
  have hb : b.toNat < 256 := b.toNat_lt
  obtain ⟨hhigh, hplus, -, -⟩ := hexGlyph_spec (show b.toNat / 16 < 16 by omega)
  obtain ⟨hlow, -, -, -⟩ := hexGlyph_spec (show b.toNat % 16 < 16 by omega)
  have hsum : b.toNat / 16 * 16 + b.toNat % 16 = b.toNat := by omega
  rw [hexByte?, if_neg hplus, hhigh, hlow]
  change some (UInt8.ofNat (b.toNat / 16 * 16 + b.toNat % 16)) = some b
  rw [hsum, UInt8.ofNat_toNat]

/-- The digits of a colour are neither blank nor quotes. -/
theorem mem_hexByte {b : UInt8} (h : c ∈ hexByte b) : c ≠ '"' ∧ Text.isBlank c = false := by
  have hb : b.toNat < 256 := b.toNat_lt
  have hhigh := hexGlyph_spec (show b.toNat / 16 < 16 by omega)
  have hlow := hexGlyph_spec (show b.toNat % 16 < 16 by omega)
  simp only [hexByte, List.mem_cons, List.not_mem_nil, or_false] at h
  rcases h with rfl | rfl
  · exact hhigh.2.2
  · exact hlow.2.2

/-- The written form of a colour has neither blanks nor quotes. -/
theorem mem_name {color : Color} (h : c ∈ color.name.toList) :
    c ≠ '"' ∧ Text.isBlank c = false := by
  have hnamed : color.name.toList.all (fun d => d != '"' && !Text.isBlank d) = true →
      c ≠ '"' ∧ Text.isBlank c = false := by
    intro hall
    simpa using List.all_eq_true.mp hall c h
  cases color with
  | rgb red green blue =>
    simp only [name, String.toList_ofList, List.cons_append, List.mem_cons, List.mem_append] at h
    rcases h with rfl | (h | h) | h
    · decide
    · exact mem_hexByte h
    · exact mem_hexByte h
    · exact mem_hexByte h
  | _ => exact hnamed (by decide +kernel)

theorem parse?_rgb (red green blue : UInt8) :
    parse? (rgb red green blue).name = some (rgb red green blue) := by
  have htrim : Text.trim (rgb red green blue).name.toList = (rgb red green blue).name.toList :=
    Text.trim_of_no_blank fun c hc => (mem_name hc).2
  rw [parse?, htrim, name, String.toList_ofList]
  simp [hexByte, hexByte?_halves]

/-- A colour is read back from its written form. -/
theorem parse?_name (color : Color) : parse? color.name = some color := by
  cases color with
  | rgb red green blue => exact parse?_rgb red green blue
  | _ => decide +kernel

end Color

namespace Settings

/-! ### Lines -/

/-- Blanks within a line. -/
structure Gap where
  text : List Char
  horizontal : ∀ c ∈ text, c = ' ' ∨ c = '\t'

/-- What stands behind the mark of a comment. -/
structure Remark where
  text : List Char
  single : '\n' ∉ text

/-- How an assignment is laid out on its line: the blanks before its key, on either side of its
equals sign, inside the quotes of its value and behind it, the comment at its end, and the
underscores between the digits of its value. -/
structure Layout where
  indent : Gap
  beforeSign : Gap
  afterSign : Gap
  opening : Gap
  closing : Gap
  behind : Gap
  remark : Option Remark
  grouping : Nat → Nat

namespace Gap

variable (gap : Gap)

theorem blanks : Text.Blanks gap.text := by
  intro c hc
  rcases gap.horizontal c hc with rfl | rfl
  · rfl
  · rfl

theorem not_mem {c : Char} (hs : c ≠ ' ') (ht : c ≠ '\t') : c ∉ gap.text := by
  intro hc
  rcases gap.horizontal c hc with rfl | rfl
  · exact hs rfl
  · exact ht rfl

end Gap

namespace Layout

variable (layout : Layout)

/-- No blanks but one on either side of the equals sign, no comment and no underscores. -/
def plain : Layout :=
  let none : Gap := ⟨[], by simp⟩
  let space : Gap := ⟨[' '], by simp⟩
  ⟨none, space, space, none, none, none, .none, fun _ => 0⟩

/-- A number as a value. -/
def number (n : Nat) : List Char :=
  Numeral.spell layout.grouping n

/-- What stands between the quotes of a value. -/
def padded (name : String) : List Char :=
  layout.opening.text ++ name.toList ++ layout.closing.text

/-- A name as a value. -/
def quoted (name : String) : List Char :=
  '"' :: (layout.padded name ++ ['"'])

/-- The comment at the end of the line. -/
def ending : List Char :=
  match layout.remark with
  | none => []
  | some remark => '#' :: remark.text

/-- An assignment on its line. -/
def line (key : Key) (written : List Char) : List Char :=
  layout.indent.text ++ key.name.toList ++ layout.beforeSign.text ++
    '=' :: (layout.afterSign.text ++ written ++ layout.behind.text ++ layout.ending)

example : plain.line .eof (plain.quoted "zero") = "eof = \"zero\"".toList := by decide

/-- Neither the blanks around a number nor the comment behind it belong to the value. -/
theorem value_number (n : Nat) :
    Statement.value (layout.afterSign.text ++ layout.number n ++ layout.behind.text ++
      layout.ending) = layout.number n := by
  have hother : ∀ c, c.isDigit = false → c ≠ '_' → c ∉ layout.number n := by
    intro c hd hu hc
    rcases Numeral.isDigit_or_of_mem_spell hc with h | h
    · rw [hd] at h
      cases h
    · exact hu h
  have htrim : Text.trim (layout.afterSign.text ++ layout.number n ++ layout.behind.text) =
      layout.number n := by
    rw [Text.trim_append_blanks layout.afterSign.blanks layout.behind.blanks]
    exact Text.trim_of_no_blank fun c hc => Numeral.not_blank_of_mem_spell hc
  have hmark : '#' ∉ layout.afterSign.text ++ layout.number n ++ layout.behind.text := by
    simp [hother, Gap.not_mem]
  have hbare : (Text.trim (layout.afterSign.text ++ layout.number n ++ layout.behind.text ++
      layout.ending)).head? ≠ some '"' := by
    obtain ⟨c, content, hcontent⟩ :=
      List.ne_nil_iff_exists_cons.mp (Numeral.spell_ne_nil layout.grouping n)
    obtain ⟨blanks, hmore⟩ := Text.exists_trim_append (htrim.trans hcontent)
    rw [hmore, List.head?_cons, ne_eq, Option.some.injEq]
    rintro rfl
    exact hother '"' (by decide) (by decide) (by rw [number, hcontent]; exact List.mem_cons_self)
  unfold ending at hbare ⊢
  cases hremark : layout.remark with
  | none =>
    simp only [hremark, List.append_nil] at hbare ⊢
    rw [(Statement.IsValue.uncommented hbare hmark).value_eq, htrim]
  | some remark =>
    simp only [hremark] at hbare ⊢
    rw [(Statement.IsValue.commented hbare rfl hmark).value_eq, htrim]

/-- Neither the blanks around a quoted name nor the comment behind it belong to the value. -/
theorem value_quoted {name : String} (h : '"' ∉ name.toList) :
    Statement.value (layout.afterSign.text ++ layout.quoted name ++ layout.behind.text ++
      layout.ending) = layout.padded name := by
  have hquote : '"' ∉ layout.padded name := by
    simp [padded, h, Gap.not_mem]
  have hshape : Text.trim (layout.afterSign.text ++ layout.quoted name ++ layout.behind.text ++
      layout.ending) = '"' :: (layout.padded name ++
        '"' :: Text.trimEnd (layout.behind.text ++ layout.ending)) := by
    have hsplit : layout.afterSign.text ++ layout.quoted name ++ layout.behind.text ++
        layout.ending = layout.afterSign.text ++
          '"' :: (layout.padded name ++ '"' :: (layout.behind.text ++ layout.ending)) := by
      simp [quoted]
    rw [hsplit, Text.trim_append_cons (by decide), Text.trimStart_of_blanks layout.afterSign.blanks,
      List.nil_append, Text.trimEnd_append_cons (by decide)]
  exact (Statement.IsValue.closed hshape hquote).value_eq

end Layout

/-- The spelling of a key has neither blanks nor an equals sign, and begins with a letter. -/
theorem Key.mem_name {key : Key} {c : Char} (h : c ∈ key.name.toList) :
    Text.isBlank c = false ∧ c ≠ '=' := by
  have hall : key.name.toList.all (fun d => !Text.isBlank d && d != '=') = true := by
    cases key <;> decide
  simpa using List.all_eq_true.mp hall c h

theorem Key.head?_name (key : Key) :
    key.name.toList.head? ≠ some '[' ∧ key.name.toList.head? ≠ some '#' := by
  cases key <;> decide

/-- A line is an assignment to its key, whatever its layout. -/
theorem Layout.ofLine_line (layout : Layout) (key : Key) (written : List Char) :
    Statement.ofLine (layout.line key written) =
      .assignment key.name (String.ofList (Statement.value
        (layout.afterSign.text ++ written ++ layout.behind.text ++ layout.ending))) := by
  have hkey : Text.trim (layout.indent.text ++ key.name.toList ++ layout.beforeSign.text) =
      key.name.toList := by
    rw [Text.trim_append_blanks layout.indent.blanks layout.beforeSign.blanks]
    exact Text.trim_of_no_blank fun c hc => (Key.mem_name hc).1
  have hsign : '=' ∉ layout.indent.text ++ key.name.toList ++ layout.beforeSign.text := by
    have hname : '=' ∉ key.name.toList := fun hc => (Key.mem_name hc).2 rfl
    simp [Gap.not_mem, hname]
  rw [line, Statement.ofLine_equals hsign (by rw [hkey]; exact key.head?_name.1), hkey,
    if_neg key.head?_name.2, String.ofList_toList]

/-! ### Files -/

/-- A value as it is written down. -/
inductive Value where
  | number (n : Nat)
  | name (text : String)

namespace Value

/-- The written form of a value. -/
def written (layout : Layout) : Value → List Char
  | .number n => layout.number n
  | .name text => layout.quoted text

/-- What is read where a value has been written. -/
def read (layout : Layout) : Value → List Char
  | .number n => layout.number n
  | .name text => layout.padded text

/-- A name without blanks and quotes, or a number. -/
def Clean : Value → Prop
  | .number _ => True
  | .name text => ∀ c ∈ text.toList, c ≠ '"' ∧ Text.isBlank c = false

variable {value : Value}

/-- A line assigns what is written on it. -/
theorem ofLine_line (h : value.Clean) (layout : Layout) (key : Key) :
    Statement.ofLine (layout.line key (value.written layout)) =
      .assignment key.name (String.ofList (value.read layout)) := by
  rw [layout.ofLine_line]
  cases value with
  | number n => rw [written, layout.value_number, read]
  | name text =>
    have hquote : '"' ∉ text.toList := fun hc => (h '"' hc).1 rfl
    rw [written, layout.value_quoted hquote, read]

/-- A line is a single line. -/
theorem newline_not_mem_line (h : value.Clean) (layout : Layout) (key : Key) :
    '\n' ∉ layout.line key (value.written layout) := by
  have hkey : '\n' ∉ key.name.toList := by
    intro hc
    have := (Key.mem_name hc).1
    revert this
    decide
  have hwritten : '\n' ∉ value.written layout := by
    cases value with
    | number n =>
      intro hc
      have := Numeral.not_blank_of_mem_spell hc
      revert this
      decide
    | name text =>
      have hname : '\n' ∉ text.toList := by
        intro hc
        have := (h '\n' hc).2
        revert this
        decide
      simp [written, Layout.quoted, Layout.padded, hname, Gap.not_mem]
  have hending : '\n' ∉ layout.ending := by
    unfold Layout.ending
    cases layout.remark with
    | none => simp
    | some remark => simp [remark.single]
  simp [Layout.line, Gap.not_mem, hkey, hwritten, hending]

end Value

/-- The value under a key. -/
def valueOf (settings : Settings) : Key → Value
  | .cells => .number settings.cells
  | .eof => .name settings.eof.name
  | .maxSteps => .number (settings.maxSteps.getD 0)
  | .timeout => .number (settings.timeout.getD 0)
  | .error => .name settings.palette.error.name
  | .hint => .name settings.palette.hint.name
  | .caret => .name settings.palette.caret.name

theorem clean_valueOf (settings : Settings) (key : Key) : (settings.valueOf key).Clean := by
  cases key with
  | cells => trivial
  | maxSteps => trivial
  | timeout => trivial
  | eof => exact fun c => EofPolicy.mem_name
  | error => exact fun c => Color.mem_name
  | hint => exact fun c => Color.mem_name
  | caret => exact fun c => Color.mem_name

/-- The assignment to a key, on its line. -/
def lineOf (settings : Settings) (layout : Key → Layout) (key : Key) : List Char :=
  (layout key).line key ((settings.valueOf key).written (layout key))

/-- The lines of a settings file: the two sections, with a line for every key. -/
def fileLines (settings : Settings) (layout : Key → Layout) : List (List Char) :=
  "[interpreter]".toList :: [.cells, .eof, .maxSteps, .timeout].map (settings.lineOf layout) ++
    [] :: "[colors]".toList :: [.error, .hint, .caret].map (settings.lineOf layout)

/-- The text of a settings file. -/
def render (settings : Settings) (layout : Key → Layout) : String :=
  String.ofList ((settings.fileLines layout).flatMap (· ++ ['\n']))

/-- Reading lines that have been put into a file is reading them. -/
theorem map_ofLine_lines {lines : List (List Char)} (h : ∀ line ∈ lines, '\n' ∉ line) :
    (Text.lines (lines.flatMap (· ++ ['\n']))).map Statement.ofLine =
      lines.map Statement.ofLine := by
  induction lines with
  | nil => rfl
  | cons line lines ih =>
    rw [List.forall_mem_cons] at h
    rw [List.flatMap_cons, List.append_assoc, List.singleton_append,
      Text.lines_append_newline h.1, List.map_cons, List.map_cons, Statement.ofLine_chomp, ih h.2]

variable (settings : Settings) (layout : Key → Layout)

theorem newline_not_mem_fileLines : ∀ line ∈ settings.fileLines layout, '\n' ∉ line := by
  have hline : ∀ key, '\n' ∉ settings.lineOf layout key := fun key =>
    Value.newline_not_mem_line (settings.clean_valueOf key) (layout key) key
  simp [fileLines, hline]

/-- What a settings file assigns to a key is what is written under the key. -/
theorem get?_render (key : Key) :
    (Entries.parse (settings.render layout)).get? key.heading key.name =
      some (String.ofList ((settings.valueOf key).read (layout key))) := by
  have hline : ∀ key, Statement.ofLine (settings.lineOf layout key) = .assignment key.name
      (String.ofList ((settings.valueOf key).read (layout key))) := fun key =>
    Value.ofLine_line (settings.clean_valueOf key) (layout key) key
  have hinterpreter : Statement.ofLine "[interpreter]".toList = .header "interpreter" := by decide
  have hcolors : Statement.ofLine "[colors]".toList = .header "colors" := by decide
  have hempty : Statement.ofLine [] = .nothing := rfl
  rw [Entries.parse, render, String.toList_ofList,
    map_ofLine_lines (settings.newline_not_mem_fileLines layout)]
  simp only [fileLines, List.map_cons, List.map_nil, List.cons_append, List.nil_append, hline,
    hinterpreter, hcolors, hempty, List.foldl_cons, List.foldl_nil, Entries.obey]
  cases key <;> simp [Entries.get?_insert, Key.heading, Key.name]

/-! ### Values read back -/

theorem Layout.trim_padded (layout : Layout) (name : String) :
    Text.trim (String.ofList (layout.padded name)).toList = Text.trim name.toList := by
  rw [String.toList_ofList, padded,
    Text.trim_append_blanks layout.opening.blanks layout.closing.blanks]

theorem cells?_number (layout : Layout) {n : Nat} (h : 1 ≤ n ∧ n < Numeral.bound) :
    cells? (String.ofList (layout.number n)) = some n := by
  rw [cells?, String.toList_ofList, Layout.number, Numeral.parse?_spell h.2,
    Option.filter_eq_some_iff]
  exact ⟨rfl, decide_eq_true h.1⟩

/-- A limit is written as a number, and none as zero. -/
theorem parse?_number (layout : Layout) {limit : Option Nat}
    (h : ∀ n ∈ limit, 1 ≤ n ∧ n < Numeral.bound) :
    Limit.parse? (String.ofList (layout.number (limit.getD 0))) = some limit := by
  have hnumber : ∀ n, n < Numeral.bound →
      Limit.parse? (String.ofList (layout.number n)) = some (Limit.ofNat n) := by
    intro n hn
    have hblank : ∀ c ∈ layout.number n, Text.isBlank c = false := fun c hc =>
      Numeral.not_blank_of_mem_spell hc
    rw [Limit.parse?, String.toList_ofList, Text.trim_of_no_blank hblank, Layout.number,
      Numeral.parse?_spell hn]
    rfl
  cases limit with
  | none => exact hnumber 0 (by decide)
  | some n =>
    obtain ⟨hpos, hlt⟩ := h n rfl
    rw [Option.getD_some, hnumber n hlt, Limit.ofNat, if_neg (by omega)]

/-- Whatever is read under a key is found there. -/
theorem lookup_render (key : Key) {α : Type} {parse? : String → Option α} {a : α}
    (h : parse? (String.ofList ((settings.valueOf key).read (layout key))) = some a)
    (otherwise : α) :
    lookup (Entries.parse (settings.render layout)) key.heading key.name parse? otherwise = a := by
  rw [lookup, settings.get?_render layout key, Option.bind_some, h, Option.getD_some]

/-- Settings that can be written down: the tape has a cell, limits are not zero, and all numbers are
below the 64th power of two. -/
structure Writable (settings : Settings) : Prop where
  cells : 1 ≤ settings.cells ∧ settings.cells < Numeral.bound
  maxSteps : ∀ n ∈ settings.maxSteps, 1 ≤ n ∧ n < Numeral.bound
  timeout : ∀ n ∈ settings.timeout, 1 ≤ n ∧ n < Numeral.bound

/-- Settings are read back from the file in which they are written down, in the plain layout and in
any other. -/
theorem settings_round_trip (settings : Settings) (h : settings.Writable) :
    parse (settings.render fun _ => .plain) = settings ∧
      ∀ layout : Key → Layout, parse (settings.render layout) = settings := by
  have hall : ∀ layout : Key → Layout, parse (settings.render layout) = settings := by
    intro layout
    have hname : ∀ (key : Key) (policy : EofPolicy),
        EofPolicy.ofName? (String.ofList ((layout key).padded policy.name)) = some policy := by
      intro key policy
      rw [EofPolicy.ofName?_congr ((layout key).trim_padded policy.name), policy.ofName?_name]
    have hcolor : ∀ (key : Key) (color : Color),
        Color.parse? (String.ofList ((layout key).padded color.name)) = some color := by
      intro key color
      rw [Color.parse?_congr ((layout key).trim_padded color.name), color.parse?_name]
    have hcells := settings.lookup_render layout .cells (cells?_number (layout .cells) h.cells)
    have heof := settings.lookup_render layout .eof (hname .eof settings.eof)
    have hsteps := settings.lookup_render layout .maxSteps
      (parse?_number (layout .maxSteps) h.maxSteps)
    have htimeout := settings.lookup_render layout .timeout
      (parse?_number (layout .timeout) h.timeout)
    have herror := settings.lookup_render layout .error (hcolor .error settings.palette.error)
    have hhint := settings.lookup_render layout .hint (hcolor .hint settings.palette.hint)
    have hcaret := settings.lookup_render layout .caret (hcolor .caret settings.palette.caret)
    simp only [Key.heading, Key.name] at hcells heof hsteps htimeout herror hhint hcaret
    simp only [parse, ofEntries, hcells, heof, hsteps, htimeout, herror, hhint, hcaret]
  exact ⟨hall _, hall⟩

/-- The largest numbers, and colours of both kinds, with tabs, grouped digits and a comment that
looks like a header. -/
theorem settings_round_trip_laid_out :
    let settings : Settings :=
      ⟨Numeral.bound - 1, .unchanged, none, some (Numeral.bound - 1),
        ⟨.rgb 255 0 171, .lightCyan, .red⟩⟩
    let layout : Layout :=
      ⟨⟨['\t'], by simp⟩, ⟨[], by simp⟩, ⟨[' ', '\t'], by simp⟩, ⟨[], by simp⟩, ⟨[' '], by simp⟩,
        ⟨[], by simp⟩, some ⟨"[=\"]".toList, by decide⟩, fun place => place % 2⟩
    settings.Writable ∧
      settings.lineOf (fun _ => layout) .cells =
        "\tcells= \t18_44_67_44_07_37_09_55_16_15#[=\"]".toList ∧
      settings.lineOf (fun _ => layout) .error = "\terror= \t\"#ff00ab \"#[=\"]".toList ∧
      parse (settings.render fun _ => layout) = settings := by
  intro settings layout
  have h : settings.Writable := ⟨by decide, by decide, by decide⟩
  exact ⟨h, by decide +kernel, by decide +kernel, (settings_round_trip settings h).2 _⟩

end Settings

end ScrewLang
