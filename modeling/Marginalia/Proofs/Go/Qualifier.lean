/-
Module: Marginalia.Proofs.Go.Qualifier
Purpose: When the name that an added import gets can stand before a dot, and that its spec reads.
Main exports:
  isReserved, isWord, Qualifier, Spelled, isWord_defaultImportName_iff, readsAsSpec,
  Import.readsAsSpec_render, Imports.qualifier_fresh_iff, Imports.add_qualifies_iff
-/
import Marginalia.Go.Grammar.SourceFile
import Marginalia.Proofs.Go.Scope

namespace Marginalia.Go

/-! ### Names that can stand before a dot -/

/-- The words that are names, although the grammar may read them as keywords. -/
def Keyword.isPredeclared : Keyword → Bool
  | .nilWord => true
  | .trueWord => true
  | .falseWord => true
  | .iotaWord => true
  | .newWord => true
  | .makeWord => true
  | _ => false

/-- A word of the language that cannot be a name. -/
def isReserved (name : String) : Bool :=
  match Keyword.ofWord? name.toList with
  | some k => !k.isPredeclared
  | none => false

/-- A letter or an underscore, and then letters, digits and underscores. -/
def isWord (name : String) : Bool :=
  match name.toList with
  | c :: rest => Text.isNameStart c && rest.all Text.isNamePart
  | [] => false

/-- A name that code can refer to a package by. -/
@[mk_iff]
structure Qualifier (name : String) : Prop where
  word : isWord name
  notBlank : name ≠ "_"
  notReserved : isReserved name = false

instance : DecidablePred Qualifier :=
  fun name => decidable_of_iff' _ (qualifier_iff name)

theorem digit_not_mem_of_isReserved {name : String} (reserved : isReserved name) :
    ∀ c ∈ name.toList, ¬c.isDigit := by
  have spelled : Keyword.spellings.all fun entry => entry.1.toList.all fun c => !c.isDigit := by
    decide +kernel
  unfold isReserved Keyword.ofWord? at reserved
  rw [String.ofList_toList] at reserved
  cases found : Keyword.spellings.lookup name with
  | none => simp [found] at reserved
  | some k =>
    have entry : (name, k) ∈ Keyword.spellings := by
      obtain ⟨before, after, split, -⟩ := List.lookup_eq_some_iff.1 found
      rw [split]
      simp
    simpa using List.all_eq_true.1 spelled _ entry

/-! ### The names that spelled paths suggest -/

/-- A character of a path: a slash between elements, or an ASCII letter or digit or one of `.`, `_`,
`~` and `-` in them. -/
def isPathChar (c : Char) : Bool :=
  c == '/' || c.isAlphanum || c == '.' || c == '_' || c == '~' || c == '-'

/-- A path of elements that are not empty, with path characters only. -/
@[mk_iff]
structure Spelled (path : String) : Prop where
  chars : path.toList.all isPathChar
  elements : [] ∉ Text.splitOn '/' path.toList

instance : DecidablePred Spelled :=
  fun path => decidable_of_iff' _ (spelled_iff path)

/-- An ASCII letter or digit, or an underscore: what the names of spelled paths are made of. -/
def isPlain (c : Char) : Bool :=
  c.isAlphanum || c == '_'

theorem isAscii_of_isPlain {c : Char} (plain : isPlain c) : c.toNat < 0x80 := by
  rcases Bool.or_eq_true_iff.1 plain with alphanum | underscore
  · rcases Bool.or_eq_true_iff.1 alphanum with letter | digit
    · rcases Bool.or_eq_true_iff.1 letter with upper | lower
      · have bound : c.toNat ≤ 90 := (of_decide_eq_true upper).2
        omega
      · have bound : c.toNat ≤ 122 := of_decide_eq_true (Bool.and_eq_true_iff.1 lower).2
        omega
    · have bound : c.toNat ≤ 57 := of_decide_eq_true (Bool.and_eq_true_iff.1 digit).2
      omega
  · rw [beq_iff_eq.1 underscore]
    decide

theorem isNamePart_of_isPlain {c : Char} (plain : isPlain c) : Text.isNamePart c := by
  rw [Text.isNamePart, if_pos (isAscii_of_isPlain plain)]
  exact plain

theorem isWordPart_of_isPlain {c : Char} (plain : isPlain c) : isWordPart c := by
  rw [isWordPart, Text.isAlphanumeric, if_pos (isAscii_of_isPlain plain)]
  exact plain

theorem isPlain_of_isDigit {c : Char} (digit : c.isDigit) : isPlain c := by
  simp [isPlain, Char.isAlphanum, digit]

theorem not_isNameStart_of_isDigit {c : Char} (digit : c.isDigit) :
    Text.isNameStart c = false := by
  have each : ∀ n < 0x80, (Char.ofNat n).isDigit → Text.isNameStart (Char.ofNat n) = false := by
    decide +kernel
  have here := each c.toNat (isAscii_of_isPlain (isPlain_of_isDigit digit))
  rw [Char.ofNat_toNat] at here
  exact here digit

/-- A path character that belongs to names is a plain one. -/
theorem isPlain_of_isWordPart {c : Char} (part : isWordPart c) (char : isPathChar c) :
    isPlain c := by
  simp only [isPathChar, Bool.or_eq_true, beq_iff_eq] at char
  rcases char with ((((rfl | plain) | rfl) | rfl) | rfl) | rfl
  · exact absurd part (by decide)
  · simp [isPlain, plain]
  · exact absurd part (by decide)
  · decide
  · exact absurd part (by decide)
  · exact absurd part (by decide)

theorem nameElement_within (path : List Char) : nameElement path <:+: path := by
  have piece {element : List Char} (listed : element ∈ (Text.splitOn '/' path).reverse) :
      element <:+: path := Text.piece_within (List.mem_reverse.1 listed)
  unfold nameElement
  split
  · rename_i last previous others split
    rw [split] at piece
    split
    · exact piece (by simp)
    · exact piece (by simp)
  · rename_i last split
    rw [split] at piece
    exact piece (by simp)
  · exact List.nil_infix

/-- The element that a path is called after, without a leading `go-`. -/
def bareElement (path : String) : List Char :=
  (Text.after? ['g', 'o', '-'] (nameElement path.toList)).getD (nameElement path.toList)

theorem toList_defaultImportName (path : String) :
    (defaultImportName path).toList = (bareElement path).takeWhile isWordPart :=
  String.toList_ofList

theorem mem_of_mem_bareElement {path : String} {c : Char} (member : c ∈ bareElement path) :
    c ∈ path.toList := by
  apply (nameElement_within path.toList).subset
  unfold bareElement at member
  cases after : Text.after? ['g', 'o', '-'] (nameElement path.toList) with
  | none => simpa [after] using member
  | some rest =>
    rw [Text.after?_eq_some_iff.1 after]
    simp only [after, Option.getD_some] at member
    exact List.mem_append_right _ member

/-- A spelled path suggests a word exactly when its bare element starts with a letter or an
underscore: it may as well start with a digit or with a mark that names do not have. -/
theorem isWord_defaultImportName_iff {path : String} (spelled : Spelled path) :
    isWord (defaultImportName path) ↔
      ∃ c, (bareElement path).head? = some c ∧ (c.isAlpha ∨ c = '_') := by
  have plain (c : Char) (member : c ∈ bareElement path) (part : isWordPart c) : isPlain c :=
    isPlain_of_isWordPart part
      (List.all_eq_true.1 spelled.chars c (mem_of_mem_bareElement member))
  unfold isWord
  rw [toList_defaultImportName]
  cases letters : bareElement path with
  | nil => simp
  | cons c rest =>
    rw [letters] at plain
    by_cases part : isWordPart c
    · have start : Text.isNameStart c = (c.isAlpha || c == '_') := by
        rw [Text.isNameStart, if_pos (isAscii_of_isPlain (plain c List.mem_cons_self part))]
      have parts : (rest.takeWhile isWordPart).all Text.isNamePart := by
        rw [List.all_eq_true]
        intro d member
        have behind := (List.takeWhile_sublist _).subset member
        exact isNamePart_of_isPlain
          (plain d (List.mem_cons_of_mem c behind) (List.mem_takeWhile_imp member))
      simp [part, start, parts]
    · have other : ¬(c.isAlpha ∨ c = '_') := by
        rintro (letter | rfl)
        · exact part (isWordPart_of_isPlain (by simp [isPlain, Char.isAlphanum, letter]))
        · exact part (by decide)
      simpa [part] using other

/-- A number behind a name does not change whether it is a word. -/
theorem isWord_numbered (base : String) (n : Nat) : isWord (numbered base n) = isWord base := by
  have digits : (Text.decimal n).all Text.isNamePart := by
    rw [List.all_eq_true]
    intro c member
    exact isNamePart_of_isPlain (isPlain_of_isDigit (isDigit_of_mem_decimal member))
  unfold isWord
  rw [toList_numbered]
  cases letters : base.toList with
  | cons c rest => simp [digits]
  | nil =>
    cases number : Text.decimal n with
    | nil => exact absurd number (decimal_ne_nil n)
    | cons d ds =>
      have digit : d.isDigit := isDigit_of_mem_decimal (n := n) (by simp [number])
      simp [not_isNameStart_of_isDigit digit]

/-- A numbered name is neither blank nor reserved, so a name that is in use becomes a qualifier as
soon as it is a word. -/
theorem Imports.qualifier_fresh_iff (used : List String) (base : String) :
    Qualifier (fresh used base) ↔
      isWord base ∧ (base ∈ used ∨ base ≠ "_" ∧ isReserved base = false) := by
  rcases fresh_cases used base with ⟨unused, same⟩ | ⟨taken, n, -, same, -⟩
  · rw [same, qualifier_iff]
    simp [unused]
  · have notBlank : numbered base n ≠ "_" := numbered_ne (by simp)
    have notReserved : isReserved (numbered base n) = false := by
      by_contra reserved
      exact numbered_ne (digit_not_mem_of_isReserved (Bool.eq_true_of_not_eq_false reserved)) rfl
    rw [same, qualifier_iff, isWord_numbered]
    simp [taken, notBlank, notReserved]

/-! ### How a spec reads -/

/-- What the grammar sees of a text. -/
def signsOf (text : String) : Grammar.Cursor :=
  (Lexeme.solid false (Lexeme.scan text.toList)).map fun (l, newline) => ⟨l.token, newline⟩

/-- A text that the grammar reads as one import spec and nothing more. -/
def readsAsSpec (text : String) : Bool :=
  match Grammar.importSpec.run (signsOf text) with
  | some (_, []) => true
  | _ => false

namespace Lexeme

theorem scanFrom_skip (cs ds : List Char) (p : Point) :
    scanFrom cs.length p (cs ++ ds) = scanFrom 0 (cs.foldl Point.advance p) ds := by
  induction cs generalizing p with
  | nil => rfl
  | cons c cs ih => exact ih (p.advance c)

theorem quotedTail_of_plain {cs : List Char} (plain : cs.all isPathChar) :
    quotedTail 0 (cs ++ ['"']) = some (cs.length + 1) := by
  induction cs with
  | nil => rfl
  | cons c cs ih =>
    obtain ⟨char, others⟩ := Bool.and_eq_true_iff.1 plain
    have rest := ih others
    have quote : c ≠ '"' := by
      rintro rfl
      exact absurd char (by decide)
    have newline : c ≠ '\n' := by
      rintro rfl
      exact absurd char (by decide)
    have backslash : c ≠ '\\' := by
      rintro rfl
      exact absurd char (by decide)
    simp [quotedTail, rest]

/-- A path in quotes is one lexeme. -/
theorem scanFrom_quoted {cs : List Char} (plain : cs.all isPathChar) (p : Point) :
    ∃ l, scanFrom 0 p ('"' :: (cs ++ ['"'])) = [l] ∧ l.token = .quoted := by
  have quoted : at? '"' (cs ++ ['"']) = some (.quoted, cs.length + 2) := by
    have start : Text.isNameStart '"' = false := by decide
    simp [at?, start, isSpace, numberAt, special?, quotedTail_of_plain plain]
  rw [scanFrom, quoted]
  have rest : scanFrom (cs.length + 1) (p.advance '"') (cs ++ ['"']) = [] := by
    simpa [scanFrom] using scanFrom_skip (cs ++ ['"']) [] (p.advance '"')
  exact ⟨_, List.cons_eq_cons.2 ⟨rfl, rest⟩, rfl⟩

/-- A word before a blank is one lexeme. -/
theorem at?_word {c : Char} {inner rest : List Char} (start : Text.isNameStart c)
    (parts : inner.all Text.isNamePart) :
    at? c (inner ++ ' ' :: rest) =
      some (.word (Keyword.ofWord? (c :: inner)), inner.length + 1) := by
  have newline : c ≠ '\n' := by
    rintro rfl
    exact absurd start (by decide)
  have space : isSpace c = false := by
    by_contra blank
    rw [Bool.not_eq_false] at blank
    simp only [isSpace, Bool.or_eq_true, beq_iff_eq] at blank
    rcases blank with (((rfl | rfl) | rfl) | rfl) | rfl <;> exact absurd start (by decide)
  have stop : Text.isNamePart ' ' = false := by decide
  have whole : (inner ++ ' ' :: rest).takeWhile Text.isNamePart = inner := by
    rw [List.takeWhile_append_of_pos (List.all_eq_true.1 parts)]
    simp [stop]
  simp [at?, newline, space, start, whole]

theorem scanFrom_word {c : Char} {inner : List Char} (start : Text.isNameStart c)
    (parts : inner.all Text.isNamePart) (rest : List Char) (p : Point) :
    ∃ l q, scanFrom 0 p (c :: (inner ++ ' ' :: rest)) = l :: scanFrom 0 q rest ∧
      l.token = .word (Keyword.ofWord? (c :: inner)) := by
  have blank : at? ' ' rest = none := by simp [at?, isSpace]
  have skipped := scanFrom_skip inner (' ' :: rest) (p.advance c)
  rw [scanFrom, blank] at skipped
  rw [scanFrom, at?_word start parts]
  exact ⟨_, _, List.cons_eq_cons.2 ⟨rfl, skipped⟩, rfl⟩

end Lexeme

open Lexeme in
/-- The grammar sees a spec as its alias, if it has one, and its path. -/
theorem Import.signsOf_render {i : Import} (aliased : ∀ name ∈ i.name, isWord name)
    (plain : i.path.toList.all isPathChar) :
    signsOf i.render =
      (i.name.map fun name => ⟨.word (Keyword.ofWord? name.toList), false⟩).toList ++
        [⟨.quoted, false⟩] := by
  unfold signsOf Import.render
  cases named : i.name with
  | none =>
    obtain ⟨l, scanned, quoted⟩ := scanFrom_quoted plain ⟨0, 0⟩
    have whole : scan ("\"" ++ i.path ++ "\"").toList = [l] := by
      rw [← scanned]
      simp [scan]
    dsimp only
    rw [whole]
    simp [solid, quoted]
  | some name =>
    have word := aliased name named
    unfold isWord at word
    cases letters : name.toList with
    | nil => simp [letters] at word
    | cons c inner =>
      simp only [letters, Bool.and_eq_true] at word
      have ordinary : c.toNat ≠ 0xFEFF := by
        intro mark
        rw [← Char.ofNat_toNat c, mark] at word
        exact absurd word.1 (by decide +kernel)
      obtain ⟨l, q, scanned, first⟩ := scanFrom_word word.1 word.2
        ('"' :: (i.path.toList ++ ['"'])) ⟨0, 0⟩
      obtain ⟨m, behind, quoted⟩ := scanFrom_quoted plain q
      have whole : scan (name ++ " \"" ++ i.path ++ "\"").toList = [l, m] := by
        rw [← behind, ← scanned]
        simp [scan, letters, ordinary]
      dsimp only
      rw [whole]
      simp [solid, first, quoted, letters]

/-- A spec reads as one if its alias is a word and its path has the characters of paths. -/
theorem Import.readsAsSpec_render {i : Import} (aliased : ∀ name ∈ i.name, isWord name)
    (plain : i.path.toList.all isPathChar) : readsAsSpec i.render := by
  rw [readsAsSpec, Import.signsOf_render aliased plain]
  cases i.name with
  | none => rfl
  | some name => rfl

/-! ### Adding a path -/

namespace Imports

/-- The name that a new path gets is a qualifier exactly when the path suggests a word and that word
is in use, so that a number is put behind it, or is neither blank nor reserved. If it is a
qualifier, the spec that is appended reads as one. -/
theorem add_qualifies_iff {imports : Imports} {path : String} (spelled : Spelled path)
    (new : ∀ i ∈ imports, i.path = path → i.isHidden = true) :
    (Qualifier (imports.add path).1 ↔
      (∃ c, (bareElement path).head? = some c ∧ (c.isAlpha ∨ c = '_')) ∧
        (defaultImportName path ∈ imports.taken ∨
          defaultImportName path ≠ "_" ∧ isReserved (defaultImportName path) = false)) ∧
    (Qualifier (imports.add path).1 →
      ∃ i, (imports.add path).2 = imports ++ [i] ∧ i.path = path ∧ readsAsSpec i.render) := by
  have result : imports.add path =
      (fresh imports.taken (defaultImportName path),
        imports ++ [written path (fresh imports.taken (defaultImportName path))]) := by
    rcases addNamed_cases imports path (defaultImportName path) with
      ⟨i, member, same, visible, -⟩ | ⟨-, result⟩
    · rw [new i member same] at visible
      cases visible
    · exact result
  rw [result]
  constructor
  · rw [qualifier_fresh_iff, isWord_defaultImportName_iff spelled]
  · intro qualifier
    refine ⟨_, rfl, rfl, Import.readsAsSpec_render ?_ spelled.chars⟩
    intro name named
    -- the alias is the name that is given out, or there is none
    unfold written at named
    split at named
    · cases named
    · obtain rfl := Option.some.inj named
      exact qualifier.word

/-- A name in use gets a number and is written as an alias. -/
theorem add_qualifies_numbered :
    let imports : Imports := [⟨some "yaml", "example.com/yml"⟩]
    Spelled "gopkg.in/yaml.v3" ∧
      (∀ i ∈ imports, i.path = "gopkg.in/yaml.v3" → i.isHidden = true) ∧
      Qualifier (imports.add "gopkg.in/yaml.v3").1 ∧
      ∃ i, (imports.add "gopkg.in/yaml.v3").2 = imports ++ [i] ∧ i.path = "gopkg.in/yaml.v3" ∧
        readsAsSpec i.render := by
  intro imports
  have spelled : Spelled "gopkg.in/yaml.v3" := by decide
  have new : ∀ i ∈ imports, i.path = "gopkg.in/yaml.v3" → i.isHidden = true := by decide
  have qualifier : Qualifier (imports.add "gopkg.in/yaml.v3").1 :=
    (add_qualifies_iff spelled new).1.2 ⟨⟨'y', by decide, by decide⟩, Or.inl (by decide)⟩
  exact ⟨spelled, new, qualifier, (add_qualifies_iff spelled new).2 qualifier⟩

/-- Paths whose elements start with digits or dots, are reserved words behind `go-`, or are blank
get names that no code can use, and a spec with such a name may not read. -/
theorem add_unusable :
    (∀ path ∈ ["example.com/go-2fa", "example.com/.x", "example.com/go-type", "example.com/_"],
      Spelled path ∧ ¬Qualifier (add [] path).1) ∧
    (add [] "example.com/go-2fa").2.map Import.render = ["2fa \"example.com/go-2fa\""] ∧
    readsAsSpec "2fa \"example.com/go-2fa\"" = false := by
  decide +kernel

end Imports
end Marginalia.Go
