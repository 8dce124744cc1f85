import GameCluster.Lib.Text
import Mathlib.Tactic.SplitIfs

/-!
The files of message numbers that `tools/proto` keeps: their elements as the protobuf parser
gives them and the text that `writeProto` makes of them. The writer leaves out what it does not
know (messages, services, comments between declarations, options and reserved numbers of an
enum) and drops the quotes of every option but `go_package`. The parser is a library of its own
(`emicklei/proto`) and stays a parameter: the generator relies on it to read the statements of
the protobuf language, and what it does with any other text is left open.
-/

namespace GameCluster.Proto

open Lib

def isIdentStart (c : Char) : Bool := c.isAlpha || c == '_'

def isIdentChar (c : Char) : Bool := c.isAlphanum || c == '_'

/-- A letter or underscore, then letters, digits and underscores. -/
structure Ident where
  first : Char
  rest : Chars
  start : isIdentStart first = true
  word : ∀ c ∈ rest, isIdentChar c = true
  deriving DecidableEq

def Ident.text (n : Ident) : Chars := n.first :: n.rest

def Ident.ofText : Chars → Option Ident
  | [] => none
  | c :: s =>
    if h : isIdentStart c = true ∧ ∀ d ∈ s, isIdentChar d = true then some ⟨c, s, h.1, h.2⟩
    else none

theorem Ident.isIdentChar_of_mem (n : Ident) {c : Char} (hc : c ∈ n.text) :
    isIdentChar c = true := by
  rcases List.mem_cons.mp hc with rfl | hc
  · have hstart := n.start
    rw [isIdentStart] at hstart
    rw [isIdentChar, Char.isAlphanum]
    rcases Bool.or_eq_true_iff.mp hstart with h | h
    · rw [h, Bool.true_or, Bool.true_or]
    · rw [h, Bool.or_true]
  · exact n.word c hc

theorem Ident.ofText_text (n : Ident) : Ident.ofText n.text = some n :=
  dif_pos ⟨n.start, n.word⟩

/-- One line of a comment. -/
abbrev Line := { s : Chars // ∀ c ∈ s, c ≠ '\n' ∧ c ≠ '\x00' }

structure EnumField where
  name : Ident
  integer : Int64
  inlineComment : Option (List Line)
  deriving DecidableEq

inductive EnumElement where
  | field (f : EnumField)
  | comment (lines : List Line)
  /-- An option or reserved numbers. -/
  | other
  deriving DecidableEq

structure Enum where
  name : Ident
  elements : List EnumElement
  deriving DecidableEq

inductive Element where
  | syntaxDecl (value : Chars)
  | package (name : Chars)
  | importDecl (filename : Chars)
  | enum (e : Enum)
  | option (name source : Chars)
  | message (name : Ident)
  /-- A service or a comment. -/
  | other
  deriving DecidableEq

abbrev Definition := List Element

/-! ### Writing -/

def writeLine (line : Chars) : Chars := "    ".toList ++ line ++ "\n".toList

/-- The comment after a field, of which only the first line is kept. -/
def inlineText (f : EnumField) : Chars :=
  match f.inlineComment with
  | some (line :: _) => "//\t\t".toList ++ line.1
  | _ => []

def writeField (f : EnumField) : Chars :=
  writeLine (f.name.text ++ " = ".toList ++ f.integer.toInt.repr.toList ++ ";".toList ++
    inlineText f)

def writeEnumElement : EnumElement → Chars
  | .field f => writeField f
  | .comment lines => (lines.map fun line : Line => writeLine ("// ".toList ++ line.1)).flatten
  | .other => []

def writeEnum (e : Enum) : Chars :=
  "\nenum ".toList ++ e.name.text ++ " \x7b\n".toList ++
    (e.elements.map writeEnumElement).flatten ++ "\x7d\n".toList

def writeOption (name source : Chars) : Chars :=
  if name = "go_package".toList then
    "option ".toList ++ name ++ " = ".toList ++ quote source ++ ";\n".toList
  else "option ".toList ++ name ++ " = ".toList ++ source ++ ";\n".toList

/-- An element, which is the last one or not. -/
def writeElement (last : Bool) : Element → Chars
  -- `%q` of a text with nothing to escape
  | .syntaxDecl value => "syntax = ".toList ++ quote value ++ ";\n\n".toList
  | .package name => "package ".toList ++ name ++ ";\n".toList
  | .importDecl filename => "import ".toList ++ quote filename ++ ";\n".toList
  | .enum e => writeEnum e ++ bif last then [] else "\n".toList
  | .option name source => writeOption name source
  | .message _ => []
  | .other => []

def writeProto : Definition → Chars
  | [] => []
  | e :: rest => writeElement rest.isEmpty e ++ writeProto rest

/-! ### Parsing -/

/-- The names and numbers of an enum. -/
def fieldsOf (els : List EnumElement) : List (Ident × Int64) :=
  els.filterMap fun el =>
    match el with
    | .field f => some (f.name, f.integer)
    | _ => none

/-- The enums of a file. -/
def enumsOf (d : Definition) : List (Ident × List (Ident × Int64)) :=
  d.filterMap fun el =>
    match el with
    | .enum e => some (e.name, fieldsOf e.elements)
    | _ => none

/-- The texts to which `%q` only adds quotes. -/
def Printable (s : Chars) : Prop :=
  ∀ c ∈ s, 0x20 ≤ c.toNat ∧ c.toNat < 0x7f ∧ c ≠ '"' ∧ c ≠ '\\'

instance (s : Chars) : Decidable (Printable s) := inferInstanceAs (Decidable (∀ c ∈ s, _))

/-- The name of a package or an option. -/
def Dotted (s : Chars) : Prop :=
  s ≠ [] ∧ ∀ c ∈ s, (isIdentChar c || c == '.' || c == '(' || c == ')') = true

instance (s : Chars) : Decidable (Dotted s) := inferInstanceAs (Decidable (_ ∧ ∀ c ∈ s, _))

/-- A text of one word. -/
def Word (s : Chars) : Prop := s ≠ [] ∧ ∀ c ∈ s, (isIdentChar c || c == '.' || c == ':') = true

instance (s : Chars) : Decidable (Word s) := inferInstanceAs (Decidable (_ ∧ ∀ c ∈ s, _))

/-- The name of a field begins no option and no reserved numbers. The number `-2^63` is none
that can be written as a minus before an `int`. -/
def IsField (f : Ident × Int64) : Prop :=
  f.1.text ≠ "option".toList ∧ f.1.text ≠ "reserved".toList ∧ f.2 ≠ Int64.minValue

instance (f : Ident × Int64) : Decidable (IsField f) := inferInstanceAs (Decidable (_ ∧ _ ∧ _))

/-- The lines between the braces of an enum, and the fields that they declare. -/
inductive EnumBody : Chars → List (Ident × Int64) → Prop
  | nil : EnumBody [] []
  | field {name : Ident} {i : Int64} {c body : Chars} {fields : List (Ident × Int64)}
      (hfield : IsField (name, i)) (hc : c = [] ∨ ∃ line : Line, c = "//".toList ++ line.1)
      (h : EnumBody body fields) :
      EnumBody ("    ".toList ++ name.text ++ " = ".toList ++ i.toInt.repr.toList ++
        ";".toList ++ c ++ "\n".toList ++ body) ((name, i) :: fields)
  | comment (line : Line) {body : Chars} {fields : List (Ident × Int64)}
      (h : EnumBody body fields) :
      EnumBody ("    //".toList ++ line.1 ++ "\n".toList ++ body) fields

/-- A parser that reads a file of the protobuf language statement by statement. Each law is
about one statement on lines of its own. -/
structure ProtoParser where
  parse : Chars → Option Definition
  /-- The words that are constants. -/
  isConstant : Chars → Bool
  nil : parse [] = some []
  newline : ∀ s, parse ('\n' :: s) = parse s
  syntaxDecl : ∀ {value : Chars}, Printable value → ∀ s,
    parse ("syntax = ".toList ++ quote value ++ ";\n".toList ++ s) =
      (parse s).map (.syntaxDecl value :: ·)
  package : ∀ {name : Chars}, Dotted name → ∀ s,
    parse ("package ".toList ++ name ++ ";\n".toList ++ s) = (parse s).map (.package name :: ·)
  importDecl : ∀ {filename : Chars}, Printable filename → ∀ s,
    parse ("import ".toList ++ quote filename ++ ";\n".toList ++ s) =
      (parse s).map (.importDecl filename :: ·)
  /-- The constant of an option is a string, or a word. -/
  optionString : ∀ {name source : Chars}, Dotted name → Printable source → ∀ s,
    parse ("option ".toList ++ name ++ " = ".toList ++ quote source ++ ";\n".toList ++ s) =
      (parse s).map (.option name source :: ·)
  optionWord : ∀ {name source : Chars}, Dotted name → Word source → ∀ s,
    parse ("option ".toList ++ name ++ " = ".toList ++ source ++ ";\n".toList ++ s) =
      if isConstant source then (parse s).map (.option name source :: ·) else none
  /-- How comments are kept is left open. -/
  enum : ∀ (name : Ident) {body : Chars} {fields : List (Ident × Int64)}, EnumBody body fields →
    ∃ elements, fieldsOf elements = fields ∧ ∀ s,
      parse ("enum ".toList ++ name.text ++ " \x7b\n".toList ++ body ++ "\x7d\n".toList ++ s) =
        (parse s).map (.enum { name, elements } :: ·)

/-! ### Reading again what was written -/

/-- The elements whose text is a statement that the laws of the parser are about. -/
def Element.Plain : Element → Prop
  | .syntaxDecl value => Printable value
  | .package name => Dotted name
  | .importDecl filename => Printable filename
  | .enum e => ∀ f ∈ fieldsOf e.elements, IsField f
  | .option name source =>
    Dotted name ∧ if name = "go_package".toList then Printable source else Word source
  | .message _ => True
  | .other => True

instance (el : Element) : Decidable el.Plain := by
  unfold Element.Plain
  split <;> infer_instance

/-- The elements that are read back: all but the options whose constant is none without its
quotes. -/
def ProtoParser.Reads (p : ProtoParser) : Element → Prop
  | .option name source => name = "go_package".toList ∨ p.isConstant source = true
  | _ => True

instance (p : ProtoParser) (el : Element) : Decidable (p.Reads el) := by
  unfold ProtoParser.Reads
  split <;> infer_instance

theorem enumsOf_append (d d' : Definition) : enumsOf (d ++ d') = enumsOf d ++ enumsOf d' :=
  List.filterMap_append

theorem inlineText_eq (f : EnumField) :
    inlineText f = [] ∨ ∃ line : Line, inlineText f = "//".toList ++ line.1 := by
  rw [inlineText]
  split
  · rename_i line _ _
    have hline : ∀ c ∈ "\t\t".toList ++ line.1, c ≠ '\n' ∧ c ≠ '\x00' :=
      List.forall_mem_append.mpr ⟨by decide, line.2⟩
    exact Or.inr ⟨⟨_, hline⟩, rfl⟩
  · exact Or.inl rfl

theorem EnumBody.comments (lines : List Line) {body : Chars} {fields : List (Ident × Int64)}
    (h : EnumBody body fields) :
    EnumBody ((lines.map fun line : Line => writeLine ("// ".toList ++ line.1)).flatten ++ body)
      fields := by
  induction lines with
  | nil => exact h
  | cons line lines ih =>
    have hline : ∀ c ∈ " ".toList ++ line.1, c ≠ '\n' ∧ c ≠ '\x00' :=
      List.forall_mem_append.mpr ⟨by decide, line.2⟩
    have hbody := EnumBody.comment ⟨_, hline⟩ ih
    simpa [writeLine] using hbody

theorem enumBody_writeEnum {els : List EnumElement} (h : ∀ f ∈ fieldsOf els, IsField f) :
    EnumBody (els.map writeEnumElement).flatten (fieldsOf els) := by
  induction els with
  | nil => exact .nil
  | cons el els ih =>
    rw [List.map_cons, List.flatten_cons]
    cases el with
    | field f =>
      obtain ⟨hf, hfields⟩ := List.forall_mem_cons.mp h
      have hbody := EnumBody.field hf (inlineText_eq f) (ih hfields)
      have hcons : fieldsOf (.field f :: els) = (f.name, f.integer) :: fieldsOf els := rfl
      rw [hcons]
      simpa [writeEnumElement, writeField, writeLine] using hbody
    | comment lines => exact (ih h).comments lines
    | other => exact ih h

namespace ProtoParser

variable (p : ProtoParser)

theorem parse_syntaxDecl {value : Chars} (h : Printable value) (last : Bool) (s : Chars) :
    p.parse (writeElement last (.syntaxDecl value) ++ s) =
      (p.parse s).map (.syntaxDecl value :: ·) := by
  have htext : writeElement last (.syntaxDecl value) ++ s =
      "syntax = ".toList ++ quote value ++ ";\n".toList ++ '\n' :: s := by
    show "syntax = ".toList ++ quote value ++ ";\n\n".toList ++ s = _
    simp
  rw [htext, p.syntaxDecl h, p.newline]

theorem parse_option {name source : Chars} (hplain : (Element.option name source).Plain)
    (last : Bool) (s : Chars) :
    p.parse (writeElement last (.option name source) ++ s) =
      if p.Reads (.option name source) then (p.parse s).map (.option name source :: ·)
      else none := by
  obtain ⟨hname, hsource⟩ := hplain
  show p.parse (writeOption name source ++ s) = _
  by_cases hgo : name = "go_package".toList
  · have hreads : p.Reads (.option name source) := Or.inl hgo
    rw [if_pos hgo] at hsource
    rw [if_pos hreads, writeOption, if_pos hgo, p.optionString hname hsource]
  · have hreads : p.Reads (.option name source) ↔ p.isConstant source = true := by
      show name = _ ∨ _ ↔ _
      rw [or_iff_right hgo]
    rw [if_neg hgo] at hsource
    rw [writeOption, if_neg hgo, p.optionWord hname hsource]
    simp only [hreads]

theorem parse_enum {e : Enum} (h : (Element.enum e).Plain) (last : Bool) :
    ∃ elements, fieldsOf elements = fieldsOf e.elements ∧ ∀ s,
      p.parse (writeElement last (.enum e) ++ s) =
        (p.parse s).map (.enum ⟨e.name, elements⟩ :: ·) := by
  obtain ⟨elements, hfields, hread⟩ := p.enum e.name (enumBody_writeEnum h)
  refine ⟨elements, hfields, fun s => ?_⟩
  have hend : p.parse ((bif last then [] else "\n".toList) ++ s) = p.parse s := by
    cases last
    · exact p.newline s
    · rfl
  have htext : writeElement last (.enum e) ++ s =
      '\n' :: ("enum ".toList ++ e.name.text ++ " \x7b\n".toList ++
        (e.elements.map writeEnumElement).flatten ++ "\x7d\n".toList ++
        ((bif last then [] else "\n".toList) ++ s)) := by
    show "\nenum ".toList ++ e.name.text ++ " \x7b\n".toList ++
      (e.elements.map writeEnumElement).flatten ++ "\x7d\n".toList ++
        (bif last then [] else "\n".toList) ++ s = _
    simp
  rw [htext, p.newline, hread, hend]

/-- What is written for an element is read as elements with the same enums, which can be
written and read again. -/
theorem parse_writeElement {el : Element} (hplain : el.Plain) (hreads : p.Reads el) (last : Bool) :
    ∃ els, (∀ s, p.parse (writeElement last el ++ s) = (p.parse s).map (els ++ ·)) ∧
      enumsOf els = enumsOf [el] ∧ (∀ e ∈ els, e.Plain) ∧ ∀ e ∈ els, p.Reads e := by
  cases el with
  | syntaxDecl value =>
    exact ⟨[.syntaxDecl value], p.parse_syntaxDecl hplain last, rfl,
      List.forall_mem_singleton.mpr hplain, List.forall_mem_singleton.mpr hreads⟩
  | package name =>
    refine ⟨[.package name], fun s => ?_, rfl, List.forall_mem_singleton.mpr hplain,
      List.forall_mem_singleton.mpr hreads⟩
    exact p.package hplain s
  | importDecl filename =>
    refine ⟨[.importDecl filename], fun s => ?_, rfl, List.forall_mem_singleton.mpr hplain,
      List.forall_mem_singleton.mpr hreads⟩
    exact p.importDecl hplain s
  | enum e =>
    obtain ⟨elements, hfields, hread⟩ := p.parse_enum hplain last
    refine ⟨[.enum ⟨e.name, elements⟩], hread, ?_, ?_, List.forall_mem_singleton.mpr hreads⟩
    · simp [enumsOf, hfields]
    · rw [List.forall_mem_singleton]
      show ∀ f ∈ fieldsOf elements, IsField f
      rw [hfields]
      exact hplain
  | option name source =>
    refine ⟨[.option name source], fun s => ?_, rfl, List.forall_mem_singleton.mpr hplain,
      List.forall_mem_singleton.mpr hreads⟩
    rw [p.parse_option hplain, if_pos hreads]
    rfl
  | message name | other => exact ⟨[], fun s => Option.map_id'.symm, rfl, by simp, by simp⟩

/-- A constant that is none without its quotes makes the rest of the file unreadable. -/
theorem parse_unread {el : Element} (hplain : el.Plain) (hreads : ¬p.Reads el) (last : Bool)
    (s : Chars) : p.parse (writeElement last el ++ s) = none := by
  cases el with
  | option name source => rw [p.parse_option hplain, if_neg hreads]
  | _ => exact absurd trivial hreads

/-- A written file is read with the enums that were written. -/
theorem parse_writeProto {d : Definition} (hplain : ∀ el ∈ d, el.Plain)
    (hreads : ∀ el ∈ d, p.Reads el) :
    ∃ d', p.parse (writeProto d) = some d' ∧ enumsOf d' = enumsOf d ∧
      (∀ el ∈ d', el.Plain) ∧ ∀ el ∈ d', p.Reads el := by
  induction d with
  | nil => exact ⟨[], p.nil, rfl, by simp, by simp⟩
  | cons el rest ih =>
    obtain ⟨hel, hrest⟩ := List.forall_mem_cons.mp hplain
    obtain ⟨hread, hreads⟩ := List.forall_mem_cons.mp hreads
    obtain ⟨els, hparse, henums, hplains, hagain⟩ := p.parse_writeElement hel hread rest.isEmpty
    obtain ⟨d', hparse', henums', hplains', hagain'⟩ := ih hrest hreads
    refine ⟨els ++ d', ?_, ?_, List.forall_mem_append.mpr ⟨hplains, hplains'⟩,
      List.forall_mem_append.mpr ⟨hagain, hagain'⟩⟩
    · rw [writeProto, hparse, hparse']
      rfl
    · rw [enumsOf_append, henums, henums']
      exact (enumsOf_append [el] rest).symm

/-- And a file that can be read has no such option. -/
theorem reads_of_parse {d : Definition} (hplain : ∀ el ∈ d, el.Plain)
    (hparse : p.parse (writeProto d) ≠ none) : ∀ el ∈ d, p.Reads el := by
  induction d with
  | nil => exact List.forall_mem_nil _
  | cons el rest ih =>
    obtain ⟨hel, hrest⟩ := List.forall_mem_cons.mp hplain
    have hread : p.Reads el := by
      by_contra hbad
      exact hparse (p.parse_unread hel hbad rest.isEmpty _)
    obtain ⟨els, hel', -⟩ := p.parse_writeElement hel hread rest.isEmpty
    refine List.forall_mem_cons.mpr ⟨hread, ih hrest fun hnone => hparse ?_⟩
    rw [writeProto, hel', hnone]
    rfl

end ProtoParser

end GameCluster.Proto
