import LiterateFun.Proofs.Basics
import LiterateFun.Proofs.Naming.Region
import LiterateFun.Proofs.Printing.Literals
import LiterateFun.Script.Render

/-!
This module contains outlines of scripts. An outline says which lines that stand for a part of the
program are found in which braces. It is read from the lines of a script alone.
-/

namespace LiterateFun

/--
The kinds of lines that stand for a part of the program: declarations of temporaries and variables,
returns, and the heads of functions, methods and constructors.
-/
inductive LineKind
  | temporary
  | variable
  | return
  | function
  | method
  | constructor
deriving DecidableEq, Repr

def opensBraces (line : String) : Bool :=
  line.toList.getLast? = some '\x7b'

theorem opensBraces_brace (text : String) : opensBraces (text ++ "\x7b") := by
  simp [opensBraces]

theorem not_opensBraces_semicolon (text : String) : ¬opensBraces (text ++ ";") := by
  simp [opensBraces]

namespace LineKind

/-- The kind of a line by the words that it starts with. The head of a method has no keyword. -/
def ofLine? (line : String) : Option LineKind :=
  if "const temp".toList <+: line.toList then some .temporary
  else if "let ".toList <+: line.toList then some .variable
  else if "return ".toList <+: line.toList then some .return
  else if "function ".toList <+: line.toList then some .function
  else if "constructor() ".toList <+: line.toList then some .constructor
  else if "FUN_".toList <+: line.toList ∧ opensBraces line then some .method
  else none

def isNamed : LineKind → Bool
  | .temporary => false
  | .return => false
  | _ => true

end LineKind

structure Feature where
  kind : LineKind
  /-- The line if it has a name in it, and in front of it the line of the class around it. -/
  names : List String
deriving DecidableEq, Repr

namespace Feature

def ofLine? (line : String) : Option Feature :=
  (LineKind.ofLine? line).map fun kind => { kind, names := if kind.isNamed then [line] else [] }

def within (line : String) (f : Feature) : Feature :=
  { f with names := line :: f.names }

end Feature

inductive ScopeHead
  /-- Braces of their own, such as those of a condition, or no braces at all. -/
  | plain
  | consequent
  | alternative
  | feature (f : Feature)
deriving DecidableEq, Repr

namespace ScopeHead

def ofLine (line : String) : ScopeHead :=
  match Feature.ofLine? line with
  | some f => .feature f
  | none =>
    if "if (".toList <+: line.toList then .consequent
    else if "else ".toList <+: line.toList then .alternative
    else .plain

def within (line : String) : ScopeHead → ScopeHead
  | .feature f => .feature (f.within line)
  | head => head

end ScopeHead

/--
A scope of a script: what its braces belong to, the lines that stand directly in them, and the
scopes in it.
-/
inductive Outline
  | mk (head : ScopeHead) (own : List Feature) (inner : List Outline)

namespace Outline

def within (line : String) : Outline → Outline
  | .mk head own inner => .mk (head.within line) own inner

/--
Read one more line, where the lines after it are known. They are given by what stands in the braces
that are open after the line, from the innermost ones on. The braces of a class are no scope: what
stands in them belongs to the scope of the class.
-/
def readLine (line : String) (braces : List (List Feature × List Outline)) :
    List (List Feature × List Outline) :=
  let (own, inner) := braces.headD ([], [])
  let around := braces.tail
  -- The lines are read from the last one on, so that a closing brace starts a scope.
  if line = "\x7d" then
    ([], []) :: (own, inner) :: around
  else if opensBraces line then
    let (own', inner') := around.headD ([], [])
    if "class ".toList <+: line.toList then
      (own.map (Feature.within line) ++ own', inner.map (within line) ++ inner') :: around.tail
    else
      ((Feature.ofLine? line).toList ++ own', .mk (ScopeHead.ofLine line) own inner :: inner')
        :: around.tail
  else
    ((Feature.ofLine? line).toList ++ own, inner) :: around

def read (lines : List String) : List (List Feature × List Outline) :=
  lines.foldr readLine [([], [])]

def ofLines (lines : List String) : Outline :=
  let (own, inner) := (read lines).headD ([], [])
  .mk .plain own inner

/--
The two outlines differ in nothing but the order of the lines and of the scopes that stand directly
in a scope.
-/
inductive Same : Outline → Outline → Prop
  | mk {head : ScopeHead} {own own' : List Feature} {inner matched inner' : List Outline}
      (hown : own.Perm own') (hinner : List.Forall₂ Same inner matched)
      (horder : matched.Perm inner') : Same (.mk head own inner) (.mk head own' inner')

theorem same_of_matching {own own' : List Feature} {inner inner' : List Outline}
    (hown : own.Perm own') (h : Matching Same inner inner') (head : ScopeHead) :
    Same (.mk head own inner) (.mk head own' inner') := by
  obtain ⟨matched, hmatched, horder⟩ := h
  exact .mk hown hmatched horder

section

variable (kind : LineKind)

mutual

def count : Outline → Nat
  | .mk _ own inner => own.countP (fun f => f.kind = kind) + countIn inner

def countIn : List Outline → Nat
  | [] => 0
  | o :: os => o.count + countIn os

end

theorem countIn_append (os₁ os₂ : List Outline) :
    countIn kind (os₁ ++ os₂) = countIn kind os₁ + countIn kind os₂ := by
  induction os₁ with
  | nil => exact (Nat.zero_add _).symm
  | cons o os₁ ih => rw [List.cons_append, countIn, countIn, ih, Nat.add_assoc]

theorem countIn_perm {os os' : List Outline} (h : os.Perm os') :
    countIn kind os = countIn kind os' := by
  induction h with
  | nil => rfl
  | cons o _ ih => rw [countIn, countIn, ih]
  | swap o o' os =>
    simp only [countIn]
    omega
  | trans _ _ ih₁ ih₂ => exact ih₁.trans ih₂

mutual

theorem Same.count_eq (o : Outline) {o' : Outline} (h : Same o o') :
    o.count kind = o'.count kind := by
  match o, h with
  | .mk head own inner, .mk hown hinner horder =>
    rw [count, count, hown.countP_eq, countIn_eq_of_forall₂ inner hinner, countIn_perm kind horder]

theorem countIn_eq_of_forall₂ (os : List Outline) {os' : List Outline}
    (h : List.Forall₂ Same os os') : countIn kind os = countIn kind os' := by
  match os, h with
  | [], .nil => rfl
  | o :: os, .cons ho hos =>
    rw [countIn, countIn, Same.count_eq o ho, countIn_eq_of_forall₂ os hos]

end

theorem count_within (line : String) (o : Outline) : (o.within line).count kind = o.count kind := by
  cases o
  rfl

theorem countIn_map_within (line : String) (os : List Outline) :
    countIn kind (os.map (within line)) = countIn kind os := by
  induction os with
  | nil => rfl
  | cons o os ih => rw [List.map_cons, countIn, countIn, count_within, ih]

def countOpen : List (List Feature × List Outline) → Nat
  | [] => 0
  | (own, inner) :: braces =>
    own.countP (fun f => f.kind = kind) + countIn kind inner + countOpen braces

theorem countOpen_eq (braces : List (List Feature × List Outline)) :
    countOpen kind braces = (braces.headD ([], [])).1.countP (fun f => f.kind = kind) +
      countIn kind (braces.headD ([], [])).2 + countOpen kind braces.tail := by
  cases braces with
  | nil => rfl
  | cons p braces => rfl

end

end Outline

namespace LineKind

theorem ofLine?_class {line : String} (h : "class ".toList <+: line.toList) :
    ofLine? line = none := by
  have hother : ∀ {word : List Char}, ¬"class ".toList <+: word → ¬word <+: "class ".toList →
      ¬word <+: line.toList := not_prefix_of_prefix h
  rw [ofLine?, if_neg (hother (by decide) (by decide)), if_neg (hother (by decide) (by decide)),
    if_neg (hother (by decide) (by decide)), if_neg (hother (by decide) (by decide)),
    if_neg (hother (by decide) (by decide)),
    if_neg fun hmethod => hother (by decide) (by decide) hmethod.1]

end LineKind

namespace Outline

theorem countP_ofLine? (kind : LineKind) (line : String) :
    (Feature.ofLine? line).toList.countP (fun f => f.kind = kind) =
      if LineKind.ofLine? line = some kind then 1 else 0 := by
  rw [Feature.ofLine?]
  cases LineKind.ofLine? line with
  | none => rfl
  | some other => simp [List.countP_cons]

theorem countOpen_readLine (kind : LineKind) (line : String)
    (braces : List (List Feature × List Outline)) :
    countOpen kind (readLine line braces) =
      countOpen kind braces + if LineKind.ofLine? line = some kind then 1 else 0 := by
  rw [readLine, countOpen_eq kind braces]
  generalize braces.headD ([], []) = here, braces.tail = around
  obtain ⟨own, inner⟩ := here
  simp only
  split
  next hclose =>
    have hnone : LineKind.ofLine? line = none := by
      rw [hclose]
      decide
    rw [countOpen, countOpen, hnone]
    simp [countIn]
  · split
    · rw [countOpen_eq kind around]
      generalize around.headD ([], []) = outer, around.tail = around'
      obtain ⟨own', inner'⟩ := outer
      simp only
      split
      next hclass =>
        have hown : (own.map (Feature.within line)).countP (fun f => f.kind = kind) =
            own.countP fun f => f.kind = kind := by
          rw [List.countP_map]
          rfl
        rw [countOpen, List.countP_append, hown, countIn_append, countIn_map_within,
          LineKind.ofLine?_class hclass, if_neg (by simp)]
        omega
      · rw [countOpen, List.countP_append, countP_ofLine?, countIn, count]
        omega
    · rw [countOpen, List.countP_append, countP_ofLine?]
      omega

theorem countOpen_read (kind : LineKind) (lines : List String) :
    countOpen kind (read lines) = lines.countP fun line => LineKind.ofLine? line = some kind := by
  rw [read]
  induction lines with
  | nil => rfl
  | cons line lines ih =>
    rw [List.foldr_cons, countOpen_readLine, ih, List.countP_cons]
    simp only [decide_eq_true_eq]

/--
Some lines have all of their braces closed, and a scope in which they stand has these features and
scopes of them.
-/
def Reads (lines : List String) (own : List Feature) (inner : List Outline) : Prop :=
  ∀ own' inner' around, lines.foldr readLine ((own', inner') :: around) =
    (own ++ own', inner ++ inner') :: around

theorem Reads.read_eq {lines : List String} {own : List Feature} {inner : List Outline}
    (h : Reads lines own inner) : read lines = [(own, inner)] := by
  rw [read, h, List.append_nil, List.append_nil]

theorem reads_nil : Reads [] [] [] :=
  fun _ _ _ => rfl

theorem Reads.append {lines₁ lines₂ : List String} {own₁ own₂ : List Feature}
    {inner₁ inner₂ : List Outline} (h₁ : Reads lines₁ own₁ inner₁) (h₂ : Reads lines₂ own₂ inner₂) :
    Reads (lines₁ ++ lines₂) (own₁ ++ own₂) (inner₁ ++ inner₂) := by
  intro own' inner' around
  rw [List.foldr_append, h₂, h₁, List.append_assoc, List.append_assoc]

theorem Reads.append_scopes {lines₁ lines₂ : List String} {own : List Feature}
    {inner₁ inner₂ : List Outline} (h₁ : Reads lines₁ own inner₁) (h₂ : Reads lines₂ [] inner₂) :
    Reads (lines₁ ++ lines₂) own (inner₁ ++ inner₂) := by
  have hread := h₁.append h₂
  rwa [List.append_nil] at hread

theorem reads_line (text : String) :
    Reads [text ++ ";"] (Feature.ofLine? (text ++ ";")).toList [] := by
  intro own' inner' around
  have hother : text ++ ";" ≠ "\x7d" := by
    intro heq
    have hlast := congrArg (fun line => line.toList.getLast?) heq
    simp at hlast
  exact (if_neg hother).trans (if_neg (not_opensBraces_semicolon text))

theorem reads_feature {text : String} {f : Feature} (h : Feature.ofLine? (text ++ ";") = some f) :
    Reads [text ++ ";"] [f] [] := by
  have hread := reads_line text
  rwa [h] at hread

theorem reads_plain {text : String} (h : LineKind.ofLine? (text ++ ";") = none) :
    Reads [text ++ ";"] [] [] := by
  have hread := reads_line text
  rwa [Feature.ofLine?, h] at hread

theorem readLine_opening (head : String) (own own' : List Feature) (inner inner' : List Outline)
    (around : List (List Feature × List Outline)) :
    readLine (head ++ "\x7b") ((own, inner) :: (own', inner') :: around) =
      if "class ".toList <+: (head ++ "\x7b").toList then
        (own.map (Feature.within (head ++ "\x7b")) ++ own',
          inner.map (within (head ++ "\x7b")) ++ inner') :: around
      else
        ((Feature.ofLine? (head ++ "\x7b")).toList ++ own',
          .mk (ScopeHead.ofLine (head ++ "\x7b")) own inner :: inner') :: around := by
  have hother : head ++ "\x7b" ≠ "\x7d" := by
    intro heq
    have hlast := congrArg (fun line => line.toList.getLast?) heq
    simp at hlast
  exact (if_neg hother).trans (if_pos (opensBraces_brace head))

theorem foldr_bracedLines {lines : List String} {own : List Feature} {inner : List Outline}
    (h : Reads lines own inner) (head : String) (own' : List Feature) (inner' : List Outline)
    (around : List (List Feature × List Outline)) :
    (Script.bracedLines head lines).foldr readLine ((own', inner') :: around) =
      readLine (head ++ "\x7b") ((own, inner) :: (own', inner') :: around) := by
  have hclose : readLine "\x7d" ((own', inner') :: around) = ([], []) :: (own', inner') :: around :=
    rfl
  rw [Script.bracedLines, List.foldr_append, List.foldr_cons, List.foldr_cons, List.foldr_nil,
    hclose, h, List.append_nil, List.append_nil]

theorem Reads.braces {lines : List String} {own : List Feature} {inner : List Outline}
    (h : Reads lines own inner) {head : String}
    (hhead : ¬"class ".toList <+: (head ++ "\x7b").toList) :
    Reads (Script.bracedLines head lines) (Feature.ofLine? (head ++ "\x7b")).toList
      [.mk (ScopeHead.ofLine (head ++ "\x7b")) own inner] := by
  intro own' inner' around
  rw [foldr_bracedLines h]
  exact (readLine_opening head _ _ _ _ _).trans (if_neg hhead)

theorem Reads.headed {lines : List String} {own : List Feature} {inner : List Outline}
    (h : Reads lines own inner) {head : String} {f : Feature}
    (hhead : ¬"class ".toList <+: (head ++ "\x7b").toList)
    (hfeature : Feature.ofLine? (head ++ "\x7b") = some f) :
    Reads (Script.bracedLines head lines) [f] [.mk (.feature f) own inner] := by
  have hread := h.braces hhead
  rwa [ScopeHead.ofLine, hfeature] at hread

theorem Reads.unheaded {lines : List String} {own : List Feature} {inner : List Outline}
    (h : Reads lines own inner) (head : String) {scope : ScopeHead}
    (hhead : ¬"class ".toList <+: (head ++ "\x7b").toList)
    (hkind : LineKind.ofLine? (head ++ "\x7b") = none)
    (hscope : ScopeHead.ofLine (head ++ "\x7b") = scope) :
    Reads (Script.bracedLines head lines) [] [.mk scope own inner] := by
  have hread := h.braces hhead
  rwa [hscope, Feature.ofLine?, hkind] at hread

theorem Reads.class {lines : List String} {own : List Feature} {inner : List Outline}
    (h : Reads lines own inner) {head : String}
    (hhead : "class ".toList <+: (head ++ "\x7b").toList) :
    Reads (Script.bracedLines head lines) (own.map (Feature.within (head ++ "\x7b")))
      (inner.map (within (head ++ "\x7b"))) := by
  intro own' inner' around
  rw [foldr_bracedLines h]
  exact (readLine_opening head _ _ _ _ _).trans (if_pos hhead)

end Outline

end LiterateFun
