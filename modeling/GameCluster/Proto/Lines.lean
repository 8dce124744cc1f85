import GameCluster.Lib.Strconv
import GameCluster.Proto.File

/-!
A parser for files with one statement a line, which is all that `writeProto` writes. It shows that
the laws of `ProtoParser` can be met together, and is the parser of the runs on concrete files.
-/

namespace GameCluster.Proto

open Lib

/-- The text between a beginning and an end. -/
def between (first last s : Chars) : Option Chars :=
  let m := (s.drop first.length).take (s.length - (first.length + last.length))
  if s = first ++ m ++ last then some m else none

def readOption (name source : Chars) : Option Element :=
  match between "\"".toList "\"".toList source with
  | some string => some (.option name string)
  | none => if source.all isIdentChar then some (.option name source) else none

/-- A field after its indentation, without the comment. -/
def readField (s : Chars) : Option EnumField :=
  match Ident.ofText (s.takeWhile isIdentChar),
    decimalInt (((s.dropWhile isIdentChar).drop 3).takeWhile (· != ';')) with
  | some name, some i => some { name, integer := Int64.ofInt i, inlineComment := none }
  | _, _ => none

/-- What is read below a line: the fields up to the next brace, and the statements. -/
abbrev Below := List EnumElement × Definition

def readLine (line : Chars) (below : Below) : Option Below :=
  match line with
  | [] => some below
  | '\x7d' :: _ => some ([], below.2)
  | ' ' :: ' ' :: ' ' :: ' ' :: s =>
    if s.head? = some '/' then some below
    else (readField s).map fun f => (.field f :: below.1, below.2)
  | 'e' :: _ => ((between "enum ".toList " \x7b".toList line).bind Ident.ofText).map fun name =>
    ([], .enum { name, elements := below.1 } :: below.2)
  | 's' :: _ => (between "syntax = \"".toList "\";".toList line).map fun value =>
    ([], .syntaxDecl value :: below.2)
  | 'p' :: _ => (between "package ".toList ";".toList line).map fun name =>
    ([], .package name :: below.2)
  | 'i' :: _ => (between "import \"".toList "\";".toList line).map fun filename =>
    ([], .importDecl filename :: below.2)
  | _ => (between "option ".toList ";".toList line).bind fun s =>
    (readOption (s.takeWhile (· != ' ')) ((s.dropWhile (· != ' ')).drop 3)).map fun e =>
      ([], e :: below.2)

def readLines (text : Chars) : Option Below :=
  (text.splitOn '\n').foldr (fun line below => below.bind (readLine line)) (some ([], []))

def parseLines (text : Chars) : Option Definition := (readLines text).map Prod.snd

section Laws

variable {s : Chars}

theorem between_append (first m last : Chars) :
    between first last (first ++ m ++ last) = some m := by
  have hm : ((first ++ m ++ last).drop first.length).take
      ((first ++ m ++ last).length - (first.length + last.length)) = m := by
    simp [List.append_assoc, Nat.add_sub_add_left]
  rw [between]
  simp only [hm, if_true]

theorem readLines_cons {line : Chars} (hline : '\n' ∉ line) (s : Chars) :
    readLines (line ++ '\n' :: s) = (readLines s).bind (readLine line) := by
  have hsplit : (line ++ '\n' :: s).splitOn '\n' = line :: s.splitOn '\n' :=
    List.splitOnP_append_cons_of_forall_mem (by simpa [List.forall_mem_ne'] using hline) _
      (by simp) _
  rw [readLines, hsplit]
  rfl

/-- A line that is one statement. -/
theorem parseLines_statement {line : Chars} {e : Element} (hline : '\n' ∉ line)
    (hread : ∀ below, readLine line below = some ([], e :: below.2)) (s : Chars) :
    parseLines (line ++ '\n' :: s) = (parseLines s).map (e :: ·) := by
  rw [parseLines, readLines_cons hline, parseLines]
  cases readLines s with
  | none => rfl
  | some below => simp [hread]

theorem Printable.newline_notMem (h : Printable s) : '\n' ∉ s := by
  intro hmem
  have hlow := (h _ hmem).1
  exact absurd hlow (by decide)

theorem Dotted.newline_notMem (h : Dotted s) : '\n' ∉ s := by
  intro hmem
  exact absurd (h.2 _ hmem) (by decide)

theorem Word.newline_notMem (h : Word s) : '\n' ∉ s := by
  intro hmem
  exact absurd (h.2 _ hmem) (by decide)

theorem newline_notMem_line (line : Line) : '\n' ∉ line.1 := fun hmem => (line.2 _ hmem).1 rfl

theorem parseLines_syntaxDecl {value : Chars} (h : Printable value) (s : Chars) :
    parseLines ("syntax = ".toList ++ quote value ++ ";\n".toList ++ s) =
      (parseLines s).map (.syntaxDecl value :: ·) := by
  have htext : "syntax = ".toList ++ quote value ++ ";\n".toList ++ s =
      ("syntax = \"".toList ++ value ++ "\";".toList) ++ '\n' :: s := by simp [quote]
  rw [htext]
  refine parseLines_statement (by simp [h.newline_notMem]) (fun below => ?_) s
  show (between _ _ ("syntax = \"".toList ++ value ++ "\";".toList)).map _ = _
  rw [between_append]
  rfl

theorem parseLines_package {name : Chars} (h : Dotted name) (s : Chars) :
    parseLines ("package ".toList ++ name ++ ";\n".toList ++ s) =
      (parseLines s).map (.package name :: ·) := by
  have htext : "package ".toList ++ name ++ ";\n".toList ++ s =
      ("package ".toList ++ name ++ ";".toList) ++ '\n' :: s := by simp
  rw [htext]
  refine parseLines_statement (by simp [h.newline_notMem]) (fun below => ?_) s
  show (between _ _ ("package ".toList ++ name ++ ";".toList)).map _ = _
  rw [between_append]
  rfl

theorem parseLines_importDecl {filename : Chars} (h : Printable filename) (s : Chars) :
    parseLines ("import ".toList ++ quote filename ++ ";\n".toList ++ s) =
      (parseLines s).map (.importDecl filename :: ·) := by
  have htext : "import ".toList ++ quote filename ++ ";\n".toList ++ s =
      ("import \"".toList ++ filename ++ "\";".toList) ++ '\n' :: s := by simp [quote]
  rw [htext]
  refine parseLines_statement (by simp [h.newline_notMem]) (fun below => ?_) s
  show (between _ _ ("import \"".toList ++ filename ++ "\";".toList)).map _ = _
  rw [between_append]
  rfl

theorem takeWhile_append_cons {cls : Char → Bool} {t : Chars} (ht : ∀ c ∈ t, cls c = true)
    {c : Char} (hc : cls c = false) (r : Chars) :
    (t ++ c :: r).takeWhile cls = t ∧ (t ++ c :: r).dropWhile cls = c :: r := by
  rw [List.takeWhile_append_of_pos ht, List.dropWhile_append_of_pos ht]
  simp [hc]

/-- The line of an option is read as its name and its constant. -/
theorem readLine_option {name : Chars} (h : Dotted name) (value : Chars) (below : Below) :
    readLine ("option ".toList ++ (name ++ " = ".toList ++ value) ++ ";".toList) below =
      (readOption name value).map fun e => ([], e :: below.2) := by
  have hblank : ∀ c ∈ name, (c != ' ') = true := by
    intro c hc
    have hdotted := h.2 c hc
    rw [bne_iff_ne]
    rintro rfl
    exact absurd hdotted (by decide)
  obtain ⟨htake, hdrop⟩ := takeWhile_append_cons hblank (c := ' ') rfl ("= ".toList ++ value)
  have htext : name ++ " = ".toList ++ value = name ++ ' ' :: ("= ".toList ++ value) := by simp
  show (between _ _ ("option ".toList ++ (name ++ " = ".toList ++ value) ++ ";".toList)).bind _ = _
  rw [between_append, Option.bind_some, htext, htake, hdrop]
  rfl

theorem parseLines_option {name value : Chars} (hname : Dotted name) (hvalue : '\n' ∉ value)
    (s : Chars) :
    parseLines ("option ".toList ++ name ++ " = ".toList ++ value ++ ";\n".toList ++ s) =
      (readOption name value).bind fun e => (parseLines s).map (e :: ·) := by
  have htext : "option ".toList ++ name ++ " = ".toList ++ value ++ ";\n".toList ++ s =
      ("option ".toList ++ (name ++ " = ".toList ++ value) ++ ";".toList) ++ '\n' :: s := by
    simp
  have hline : '\n' ∉ "option ".toList ++ (name ++ " = ".toList ++ value) ++ ";".toList := by
    simp [hname.newline_notMem, hvalue]
  have hread := readLine_option hname value
  rw [htext]
  cases hopt : readOption name value with
  | some e =>
    simp only [hopt, Option.map_some] at hread
    exact parseLines_statement hline hread s
  | none =>
    simp only [hopt, Option.map_none] at hread
    rw [parseLines, readLines_cons hline]
    cases readLines s with
    | none => rfl
    | some below =>
      rw [Option.bind_some, hread]
      rfl

theorem parseLines_optionString {name source : Chars} (hname : Dotted name)
    (hsource : Printable source) (s : Chars) :
    parseLines ("option ".toList ++ name ++ " = ".toList ++ quote source ++ ";\n".toList ++ s) =
      (parseLines s).map (.option name source :: ·) := by
  have hread : readOption name (quote source) = some (.option name source) := by
    rw [readOption]
    show (match between "\"".toList "\"".toList ("\"".toList ++ source ++ "\"".toList) with
      | some string => _
      | none => _) = _
    rw [between_append]
  rw [parseLines_option hname (by simp [quote, hsource.newline_notMem]), hread]
  rfl

theorem parseLines_optionWord {name source : Chars} (hname : Dotted name) (hsource : Word source)
    (s : Chars) :
    parseLines ("option ".toList ++ name ++ " = ".toList ++ source ++ ";\n".toList ++ s) =
      if source.all isIdentChar then (parseLines s).map (.option name source :: ·) else none := by
  have hbare : between "\"".toList "\"".toList source = none := by
    refine if_neg fun heq => ?_
    have hmem : '"' ∈ source := by
      rw [heq]
      simp
    exact absurd (hsource.2 _ hmem) (by decide)
  rw [parseLines_option hname hsource.newline_notMem, readOption, hbare]
  by_cases hword : source.all isIdentChar = true
  · simp only [if_pos hword]
    rfl
  · simp only [if_neg hword]
    rfl

theorem readField_append (name : Ident) (i : Int64) (c : Chars) :
    readField (name.text ++ " = ".toList ++ i.toInt.repr.toList ++ ";".toList ++ c) =
      some ⟨name, i, none⟩ := by
  have hname : ∀ c ∈ name.text, isIdentChar c = true := fun c hc => name.isIdentChar_of_mem hc
  obtain ⟨htake, hdrop⟩ := takeWhile_append_cons hname (c := ' ') rfl
    ("= ".toList ++ i.toInt.repr.toList ++ ";".toList ++ c)
  have hdigits : ∀ d ∈ i.toInt.repr.toList, (d != ';') = true := by
    intro d hd
    rw [bne_iff_ne]
    rintro rfl
    exact notMem_int_repr (c := ';') rfl (by decide) i.toInt hd
  have hint := (takeWhile_append_cons hdigits (c := ';') rfl c).1
  have htext : name.text ++ " = ".toList ++ i.toInt.repr.toList ++ ";".toList ++ c =
      name.text ++ ' ' :: ("= ".toList ++ i.toInt.repr.toList ++ ";".toList ++ c) := by simp
  have hnumber : (' ' :: ("= ".toList ++ i.toInt.repr.toList ++ ";".toList ++ c)).drop 3 =
      i.toInt.repr.toList ++ ';' :: c := by simp
  rw [readField, htext, htake, hdrop, hnumber, hint, name.ofText_text, decimalInt_repr]
  simp only [Int64.ofInt_toInt]

theorem readLine_field (name : Ident) (i : Int64) (c : Chars) (below : Below) :
    readLine ("    ".toList ++
        (name.text ++ " = ".toList ++ i.toInt.repr.toList ++ ";".toList ++ c)) below =
      some (.field ⟨name, i, none⟩ :: below.1, below.2) := by
  have hhead : ¬(name.text ++ " = ".toList ++ i.toInt.repr.toList ++ ";".toList ++ c).head? =
      some '/' := by
    have hstart := name.start
    rw [Ident.text]
    simp only [List.cons_append, List.head?_cons, Option.some.injEq]
    intro heq
    rw [heq] at hstart
    exact absurd hstart (by decide)
  refine (if_neg hhead).trans ?_
  show (readField (name.text ++ " = ".toList ++ i.toInt.repr.toList ++ ";".toList ++ c)).map _ = _
  rw [readField_append]
  rfl

/-- The lines of an enum are read as its fields. -/
theorem readLines_enumBody {body : Chars} {fields : List (Ident × Int64)}
    (h : EnumBody body fields) :
    ∃ elements, fieldsOf elements = fields ∧ ∀ s,
      readLines (body ++ s) = (readLines s).map fun below => (elements ++ below.1, below.2) := by
  induction h with
  | nil => exact ⟨[], rfl, fun s => Option.map_id'.symm⟩
  | @field name i c body fields hfield hc _ ih =>
    obtain ⟨elements, hfields, hread⟩ := ih
    refine ⟨.field ⟨name, i, none⟩ :: elements, by rw [← hfields]; rfl, fun s => ?_⟩
    have hcomment : '\n' ∉ c := by
      rcases hc with rfl | ⟨line, rfl⟩
      · simp
      · simp [newline_notMem_line line]
    have hname : '\n' ∉ name.text := fun hmem =>
      absurd (name.isIdentChar_of_mem hmem) (by decide)
    have hint : '\n' ∉ i.toInt.repr.toList := notMem_int_repr rfl (by decide) i.toInt
    have htext : "    ".toList ++ name.text ++ " = ".toList ++ i.toInt.repr.toList ++
        ";".toList ++ c ++ "\n".toList ++ body ++ s = ("    ".toList ++ (name.text ++
        " = ".toList ++ i.toInt.repr.toList ++ ";".toList ++ c)) ++ '\n' :: (body ++ s) := by
      simp
    rw [htext, readLines_cons (by simp [hname, hint, hcomment]), hread]
    cases readLines s with
    | none => rfl
    | some below => exact readLine_field name i c _
  | @comment line body fields _ ih =>
    obtain ⟨elements, hfields, hread⟩ := ih
    refine ⟨elements, hfields, fun s => ?_⟩
    have htext : "    //".toList ++ line.1 ++ "\n".toList ++ body ++ s =
        ("    //".toList ++ line.1) ++ '\n' :: (body ++ s) := by simp
    rw [htext, readLines_cons (by simp [newline_notMem_line line]), hread]
    cases readLines s with
    | none | some below => rfl

theorem parseLines_enum (name : Ident) {body : Chars} {fields : List (Ident × Int64)}
    (h : EnumBody body fields) :
    ∃ elements, fieldsOf elements = fields ∧ ∀ s,
      parseLines ("enum ".toList ++ name.text ++ " \x7b\n".toList ++ body ++ "\x7d\n".toList ++
        s) = (parseLines s).map (.enum { name, elements } :: ·) := by
  obtain ⟨elements, hfields, hread⟩ := readLines_enumBody h
  refine ⟨elements, hfields, fun s => ?_⟩
  have hname : '\n' ∉ name.text := fun hmem => absurd (name.isIdentChar_of_mem hmem) (by decide)
  have htext : "enum ".toList ++ name.text ++ " \x7b\n".toList ++ body ++ "\x7d\n".toList ++ s =
      ("enum ".toList ++ name.text ++ " \x7b".toList) ++
        '\n' :: (body ++ (['\x7d'] ++ '\n' :: s)) := by simp
  have hopen : ∀ below, readLine ("enum ".toList ++ name.text ++ " \x7b".toList) below =
      some ([], .enum { name, elements := below.1 } :: below.2) := by
    intro below
    show ((between _ _ ("enum ".toList ++ name.text ++ " \x7b".toList)).bind _).map _ = _
    rw [between_append, Option.bind_some, name.ofText_text]
    rfl
  rw [htext, parseLines, readLines_cons (by simp [hname]), hread, readLines_cons (by simp),
    parseLines]
  cases readLines s with
  | none => rfl
  | some below =>
    have hclose : readLine ['\x7d'] below = some ([], below.2) := rfl
    rw [Option.bind_some, hclose, Option.map_some, Option.bind_some, hopen, List.append_nil]
    rfl

end Laws

def lineParser : ProtoParser where
  parse := parseLines
  isConstant source := source.all isIdentChar
  nil := rfl
  newline s := by
    have hblank := readLines_cons List.not_mem_nil s
    rw [List.nil_append] at hblank
    rw [parseLines, hblank, parseLines]
    cases readLines s <;> rfl
  syntaxDecl := parseLines_syntaxDecl
  package := parseLines_package
  importDecl := parseLines_importDecl
  optionString := parseLines_optionString
  optionWord := parseLines_optionWord
  enum := parseLines_enum

end GameCluster.Proto
