import DistanceField.Expr.Application
import DistanceField.Proofs.Spelling
import DistanceField.Proofs.Usage
import DistanceField.Text.Identifier

/-! What is written for an expression can be read in one way only. The text of an application is
a bracketed list of texts, each of which ends where a bracket or comma says so; the tree that is
written can therefore be told from its text, although it is not the one that was built. -/

namespace DistanceField

/-- The applications of a text: leaves with their texts, and nodes with a name. -/
inductive Tree where
  | leaf (text : String)
  | node (name : String) (children : List Tree)

mutual

/-- The tree that is written for an application. A vector is a node with the name that its
number of components gives it, like the call of a function of that name. -/
def Application.tree : Application → Tree
  | .leaf text => .leaf text
  | .vector components =>
      .node ("vec" ++ Nat.repr components.length) (Application.treeAll components)
  | .apply name args => .node name (Application.treeAll args)

def Application.treeAll : List Application → List Tree
  | [] => []
  | first :: rest => first.tree :: Application.treeAll rest

end

/-- The tree that is written for an expression. -/
def Expr.tree (e : Expr) : Except Error Tree :=
  e.resolve.map Application.tree

namespace Text

/-- The characters that set off the parts of a call. -/
def isDelimiter (c : Char) : Bool :=
  c == '(' || c == ')' || c == ','

/-- No bracket and no comma. -/
def isPlain (text : List Char) : Bool :=
  text.all (!isDelimiter ·)

/-- A text that is not empty and holds no bracket and no comma. -/
def isWord (text : List Char) : Bool :=
  !text.isEmpty && isPlain text

/-- A plain text ends at the first delimiter. -/
theorem plain_cancel {first second rest others : List Char} (left : isPlain first = true)
    (right : isPlain second = true) (follows : ∀ c ∈ rest.head?, isDelimiter c = true)
    (follow : ∀ c ∈ others.head?, isDelimiter c = true) (same : first ++ rest = second ++ others) :
    first = second ∧ rest = others := by
  obtain ⟨start, finish⟩ := takeWhile_dropWhile_append (List.all_eq_true.mp left)
    (fun c head => by simp [follows c head])
  obtain ⟨start', finish'⟩ := takeWhile_dropWhile_append (List.all_eq_true.mp right)
    (fun c head => by simp [follow c head])
  rw [same] at start finish
  exact ⟨start.symm.trans start', finish.symm.trans finish'⟩

theorem isPlain_of_kind {kind : Char → Bool} {text : List Char} (opening : kind '(' = false)
    (closing : kind ')' = false) (comma : kind ',' = false) (all : ∀ c ∈ text, kind c = true) :
    isPlain text = true := by
  apply List.all_eq_true.mpr
  intro c member
  have known := all c member
  simp only [isDelimiter, Bool.not_eq_true', Bool.or_eq_false_iff, beq_eq_false_iff_ne]
  refine ⟨⟨?_, ?_⟩, ?_⟩ <;> rintro rfl <;> simp_all

theorem isPlain_of_isIdentifier {name : String} (named : isIdentifier name = true) :
    isPlain name.toList = true :=
  isPlain_of_kind rfl rfl rfl fun _ member => isNameChar_of_isIdentifier named member

theorem isPlain_vec (n : Nat) : isPlain ("vec" ++ Nat.repr n).toList = true := by
  have digits : isPlain (Nat.toDigits 10 n) = true :=
    isPlain_of_kind rfl rfl rfl (Numeral.allDigits_toDigits n)
  have spelled : ("vec" ++ Nat.repr n).toList = "vec".toList ++ Nat.toDigits 10 n := by
    simp [Nat.repr_eq_ofList_toDigits]
  rw [spelled, isPlain, List.all_append, ← isPlain, ← isPlain, digits]
  rfl

end Text

namespace Tree

mutual

def chars : Tree → List Char
  | .leaf text => text.toList
  | .node name children => name.toList ++ '(' :: (charsAll children ++ [')'])

/-- The children, separated by commas. -/
def charsAll : List Tree → List Char
  | [] => []
  | first :: rest => first.chars ++ charsMore rest

def charsMore : List Tree → List Char
  | [] => []
  | next :: rest => ',' :: ' ' :: (next.chars ++ charsMore rest)

end

mutual

/-- Leaves are words, and names are plain. -/
def legible : Tree → Bool
  | .leaf text => Text.isWord text.toList
  | .node name children => Text.isPlain name.toList && legibleAll children

def legibleAll : List Tree → Bool
  | [] => true
  | first :: rest => first.legible && legibleAll rest

end

/-- What may follow a tree in a text. -/
def Follows (rest : List Char) : Prop :=
  ∀ c ∈ rest.head?, c = ',' ∨ c = ')'

theorem Follows.delimits {rest : List Char} (follows : Follows rest) :
    ∀ c ∈ rest.head?, Text.isDelimiter c = true := by
  intro c head
  rcases follows c head with rfl | rfl <;> rfl

theorem follows_charsMore (children : List Tree) (rest : List Char) :
    Follows (charsMore children ++ ')' :: rest) := by
  cases children <;> simp [Follows, charsMore]

theorem opens {rest : List Char} : ∀ c ∈ ('(' :: rest).head?, Text.isDelimiter c = true := by
  simp [Text.isDelimiter]

theorem chars_ne_close {tree : Tree} (legible : tree.legible = true) (rest more : List Char) :
    tree.chars ++ rest ≠ ')' :: more := by
  intro same
  cases tree with
  | leaf text =>
      simp only [Tree.legible, Text.isWord, Bool.and_eq_true, Bool.not_eq_true',
        List.isEmpty_eq_false_iff] at legible
      obtain ⟨c, word, spelled⟩ := List.exists_cons_of_ne_nil legible.1
      have plain := List.all_eq_true.mp legible.2 c (by simp [spelled])
      simp only [chars, spelled, List.cons_append, List.cons.injEq] at same
      rw [same.1] at plain
      exact absurd plain (by decide)
  | node name children =>
      simp only [Tree.legible, Bool.and_eq_true] at legible
      have closes : ∀ c ∈ (')' :: more).head?, Text.isDelimiter c = true := by
        simp [Text.isDelimiter]
      have unnamed : name.toList ++ '(' :: (charsAll children ++ ')' :: rest) =
          [] ++ ')' :: more := by simpa [chars] using same
      obtain ⟨-, bracket⟩ := Text.plain_cancel legible.1 rfl opens closes unnamed
      exact absurd (List.cons.inj bracket).1 (by decide)

mutual

/-- A text that starts with a tree tells the tree and what follows it. The rest is arbitrary, as
the children of a node are told apart one after the other. -/
theorem chars_cancel (first second : Tree) (left : first.legible = true)
    (right : second.legible = true) {rest others : List Char} (follows : Follows rest)
    (follow : Follows others) (same : first.chars ++ rest = second.chars ++ others) :
    first = second ∧ rest = others := by
  cases first with
  | leaf text =>
      simp only [legible, Text.isWord, Bool.and_eq_true] at left
      cases second with
      | leaf word =>
          simp only [legible, Text.isWord, Bool.and_eq_true] at right
          obtain ⟨spelled, finish⟩ :=
            Text.plain_cancel left.2 right.2 follows.delimits follow.delimits same
          exact ⟨congrArg leaf (String.toList_inj.mp spelled), finish⟩
      | node name children =>
          simp only [legible, Bool.and_eq_true] at right
          simp only [chars, List.append_assoc, List.cons_append] at same
          -- Both words end at the same place, but only a name is followed by an opening bracket.
          obtain ⟨-, finish⟩ := Text.plain_cancel left.2 right.1 follows.delimits opens same
          have bracket := follows '(' (by simp [finish])
          simp at bracket
  | node name children =>
      simp only [legible, Bool.and_eq_true] at left
      simp only [chars, List.append_assoc, List.cons_append] at same
      cases second with
      | leaf word =>
          simp only [legible, Text.isWord, Bool.and_eq_true] at right
          obtain ⟨-, finish⟩ := Text.plain_cancel left.1 right.2 opens follow.delimits same
          have bracket := follow '(' (by simp [← finish])
          simp at bracket
      | node other arguments =>
          simp only [legible, Bool.and_eq_true] at right
          simp only [chars, List.append_assoc, List.cons_append] at same
          obtain ⟨named, remaining⟩ := Text.plain_cancel left.1 right.1 opens opens same
          obtain ⟨rfl, finish⟩ := charsAll_cancel children arguments left.2 right.2
            (List.cons.inj remaining).2
          exact ⟨congrArg (node · children) (String.toList_inj.mp named), finish⟩

theorem charsAll_cancel (first second : List Tree) (left : legibleAll first = true)
    (right : legibleAll second = true) {rest others : List Char}
    (same : charsAll first ++ ')' :: rest = charsAll second ++ ')' :: others) :
    first = second ∧ rest = others := by
  cases first with
  | nil =>
      cases second with
      | nil => exact ⟨rfl, (List.cons.inj same).2⟩
      | cons tree trees =>
          simp only [legibleAll, Bool.and_eq_true] at right
          simp only [charsAll, List.append_assoc] at same
          exact absurd same.symm (chars_ne_close right.1 _ _)
  | cons tree trees =>
      simp only [legibleAll, Bool.and_eq_true] at left
      simp only [charsAll, List.append_assoc] at same
      cases second with
      | nil => exact absurd same (chars_ne_close left.1 _ _)
      | cons other others =>
          simp only [legibleAll, Bool.and_eq_true] at right
          simp only [charsAll, List.append_assoc] at same
          obtain ⟨rfl, remaining⟩ := chars_cancel tree other left.1 right.1
            (follows_charsMore trees _) (follows_charsMore others _) same
          obtain ⟨rfl, finish⟩ := charsMore_cancel trees others left.2 right.2 remaining
          exact ⟨rfl, finish⟩

theorem charsMore_cancel (first second : List Tree) (left : legibleAll first = true)
    (right : legibleAll second = true) {rest others : List Char}
    (same : charsMore first ++ ')' :: rest = charsMore second ++ ')' :: others) :
    first = second ∧ rest = others := by
  cases first with
  | nil =>
      cases second with
      | nil => exact ⟨rfl, (List.cons.inj same).2⟩
      | cons tree trees => simp [charsMore] at same
  | cons tree trees =>
      cases second with
      | nil => simp [charsMore] at same
      | cons other others =>
          simp only [legibleAll, Bool.and_eq_true] at left right
          simp only [charsMore, List.cons_append, List.append_assoc, List.cons.injEq,
            true_and] at same
          obtain ⟨rfl, remaining⟩ := chars_cancel tree other left.1 right.1
            (follows_charsMore trees _) (follows_charsMore others _) same
          obtain ⟨rfl, finish⟩ := charsMore_cancel trees others left.2 right.2 remaining
          exact ⟨rfl, finish⟩

end

end Tree

namespace Application

mutual

theorem toList_text (written : Application) : written.text.toList = written.tree.chars := by
  cases written with
  | leaf text => rfl
  | vector components =>
      simp [text, tree, Tree.chars, String.toList_append, toList_argsText components]
  | apply name args =>
      simp [text, tree, Tree.chars, String.toList_append, toList_argsText args]

theorem toList_argsText (args : List Application) :
    (argsText args).toList = Tree.charsAll (treeAll args) := by
  cases args with
  | nil => rfl
  | cons first rest =>
      simp [argsText, treeAll, Tree.charsAll, toList_text first, toList_moreText rest]

theorem toList_moreText (args : List Application) :
    (moreText args).toList = Tree.charsMore (treeAll args) := by
  cases args with
  | nil => rfl
  | cons next rest =>
      simp [moreText, treeAll, Tree.charsMore, toList_text next, toList_moreText rest]

end

end Application

mutual

/-- Every call is named by an identifier, and every variable is a word. -/
def Expr.legible : Expr → Bool
  | .number _ => true
  | .vector components => Expr.legibleAll components
  | .var text => Text.isWord text.toList
  | .call call => Call.legible call

def Call.legible : Call → Bool
  | .plain name args => Text.isIdentifier name && Expr.legibleAll args
  | .shape name _ args offset transform =>
      Text.isIdentifier name && Expr.legibleAll args &&
        (Expr.legibleOption offset && Expr.legibleOption transform)
  | .combinator name args => Text.isIdentifier name && Expr.legibleAll args
  | .operator name args transform =>
      Text.isIdentifier name && Expr.legibleAll args && Expr.legibleOption transform

def Expr.legibleAll : List Expr → Bool
  | [] => true
  | first :: rest => Expr.legible first && Expr.legibleAll rest

def Expr.legibleOption : Option Expr → Bool
  | none => true
  | some e => Expr.legible e

end

theorem Single.isWord_text (x : Single) : Text.isWord x.text.toList = true := by
  have plain : Text.isPlain x.text.toList = true :=
    Text.isPlain_of_kind rfl rfl rfl fun _ member => x.isTextChar_text member
  simp [Text.isWord, plain, x.text_ne_nil]

namespace Application

theorem legible_vector {components : List Application}
    (all : Tree.legibleAll (treeAll components) = true) :
    (Application.vector components).tree.legible = true := by
  rw [tree, Tree.legible, Text.isPlain_vec, all]
  rfl

theorem legible_apply {name : String} {args : List Application}
    (named : Text.isIdentifier name = true) (all : Tree.legibleAll (treeAll args) = true) :
    (Application.apply name args).tree.legible = true := by
  rw [tree, Tree.legible, Text.isPlain_of_isIdentifier named, all]
  rfl

theorem legibleAll_cons {first : Application} {rest : List Application}
    (one : first.tree.legible = true) (all : Tree.legibleAll (treeAll rest) = true) :
    Tree.legibleAll (treeAll (first :: rest)) = true := by
  rw [treeAll, Tree.legibleAll, one, all]
  rfl

end Application

theorem Expr.legibleAll_append (es more : List Expr) :
    Expr.legibleAll (es ++ more) = (Expr.legibleAll es && Expr.legibleAll more) := by
  induction es with
  | nil => rfl
  | cons first rest ih =>
      rw [List.cons_append, Expr.legibleAll, ih, Expr.legibleAll, Bool.and_assoc]

theorem Expr.Translated.legible {location point moved : Expr}
    (translated : Expr.Translated location point moved) (clear : point.legible = true)
    (placed : location.legible = true) : moved.legible = true := by
  have named : Text.isIdentifier translateName = true := by decide
  induction translated with
  | raw =>
      simp [Expr.legible, Call.legible, Expr.legibleAll, Expr.legibleOption, named, placed, clear]
  | under name args inner ih =>
      simp only [Expr.legible, Call.legible, Expr.legibleOption, Bool.and_eq_true] at clear ⊢
      exact ⟨clear.1, ih clear.2⟩

/-- What a legible call is given is legible. -/
theorem Call.legible_leading {call : Call} {leading : List Expr}
    (led : call.leading = .ok leading) (legible : call.legible = true) :
    Text.isIdentifier call.name = true ∧
      Expr.legibleAll (leading ++ call.args) = true := by
  rw [Expr.legibleAll_append, Bool.and_eq_true]
  have first {point : Expr} (clear : point.legible = true) (kind : ShapeKind) : Expr.legibleAll
      (point :: if kind = .object then [.var resultName] else []) = true := by
    refine Bool.and_eq_true_iff.mpr ⟨clear, ?_⟩
    cases kind <;> decide
  cases Call.given_of_leading led with
  | plain name args | combinator name args =>
      obtain ⟨named, clear⟩ := Bool.and_eq_true_iff.mp legible
      exact ⟨named, rfl, clear⟩
  | operator name args =>
      obtain ⟨own, further⟩ := Bool.and_eq_true_iff.mp legible
      obtain ⟨named, clear⟩ := Bool.and_eq_true_iff.mp own
      exact ⟨named, Bool.and_eq_true_iff.mpr ⟨further, rfl⟩, clear⟩
  | shape name kind args =>
      obtain ⟨own, around⟩ := Bool.and_eq_true_iff.mp legible
      obtain ⟨named, clear⟩ := Bool.and_eq_true_iff.mp own
      obtain ⟨_, further⟩ := Bool.and_eq_true_iff.mp around
      exact ⟨named, first further kind, clear⟩
  | placed name kind args leads translated =>
      obtain ⟨own, around⟩ := Bool.and_eq_true_iff.mp legible
      obtain ⟨named, clear⟩ := Bool.and_eq_true_iff.mp own
      obtain ⟨located, further⟩ := Bool.and_eq_true_iff.mp around
      exact ⟨named, first (translated.legible further located) kind, clear⟩

/-- What is written for legible expressions is legible. -/
theorem Expr.legible_resolve :
    (∀ (e : Expr) written, e.legible = true → e.resolve = .ok written →
      written.tree.legible = true) ∧
    ∀ es written, Expr.legibleAll es = true → Expr.resolveAll es = .ok written →
      Tree.legibleAll (Application.treeAll written) = true := by
  refine Expr.resolve_induction ?number ?vector ?var ?call ?nil ?cons
  case number =>
    intro value written _ resolved
    rw [Expr.resolve] at resolved
    cases resolved
    exact value.isWord_text
  case var =>
    intro text written legible resolved
    rw [Expr.resolve] at resolved
    cases resolved
    exact legible
  case vector =>
    intro components each written legible resolved
    rw [Expr.resolve] at resolved
    obtain ⟨parts, all, finish⟩ := except_bind_ok resolved
    cases finish
    exact Application.legible_vector (each parts legible all)
  case call =>
    intro call each written legible resolved
    rw [Expr.resolve, Call.resolve_eq] at resolved
    obtain ⟨leading, led, remaining⟩ := except_bind_ok resolved
    obtain ⟨parts, all, finish⟩ := except_bind_ok remaining
    cases finish
    obtain ⟨named, clear⟩ := Call.legible_leading led legible
    exact Application.legible_apply named (each leading led parts clear all)
  case nil =>
    intro written _ resolved
    rw [Expr.resolveAll] at resolved
    cases resolved
    rfl
  case cons =>
    intro first rest one others written legible resolved
    obtain ⟨clear, further⟩ := Bool.and_eq_true_iff.mp legible
    rw [Expr.resolveAll] at resolved
    obtain ⟨part, done, remaining⟩ := except_bind_ok resolved
    obtain ⟨parts, all, finish⟩ := except_bind_ok remaining
    cases finish
    exact Application.legibleAll_cons (one part clear done) (others parts further all)

theorem Expr.emit_ok {e : Expr} (emitted : e.emit = .ok text) (legible : e.legible = true) :
    ∃ tree, e.tree = .ok tree ∧ tree.legible = true ∧ tree.chars = text.toList := by
  cases resolved : e.resolve with
  | error error =>
      rw [Expr.emit, resolved] at emitted
      cases emitted
  | ok written =>
      rw [Expr.emit, resolved] at emitted
      cases emitted
      refine ⟨written.tree, ?_, Expr.legible_resolve.1 e written legible resolved, ?_⟩
      · rw [Expr.tree, resolved]
        rfl
      · exact written.toList_text.symm

/-- Legible expressions that are written as the same text are written from the same tree. -/
theorem Expr.tree_eq_of_emit_eq {e other : Expr} {text : String} (left : e.legible = true)
    (right : other.legible = true) (emitted : e.emit = .ok text)
    (also : other.emit = .ok text) : ∃ tree, e.tree = .ok tree ∧ other.tree = .ok tree := by
  obtain ⟨first, resolved, clear, spelled⟩ := Expr.emit_ok emitted left
  obtain ⟨second, resolved', clear', spelled'⟩ := Expr.emit_ok also right
  have ends : Tree.Follows [] := by simp [Tree.Follows]
  obtain ⟨rfl, -⟩ := Tree.chars_cancel first second clear clear' ends ends
    (by rw [spelled, spelled'])
  exact ⟨first, resolved, resolved'⟩

/-- A ball with a location that is still to be written out. -/
def Expr.placedBall : Expr :=
  .call (.shape "Ball" .object [.var "r"] (some (.vector [.var "x", .number ⟨0x3F800000⟩]))
    (some (.var "p")))

/-- The ball under an operator, at a location that a call makes. -/
def Expr.movedBall : Expr :=
  .call (.shape "Ball" .object [.var "r"] none
    (some (.call (.operator "Translate" [.call (.plain "vec2" [.var "x", .var "1.0"])]
      (some (.var "p"))))))

theorem Expr.movedBall_tree :
    placedBall.emit = .ok "Ball(Translate(p, vec2(x, 1.0)), res, r)" ∧
      ∃ tree, placedBall.tree = .ok tree ∧ movedBall.tree = .ok tree := by
  have placed : placedBall.emit = .ok "Ball(Translate(p, vec2(x, 1.0)), res, r)" := by
    decide +kernel
  have moved : movedBall.emit = .ok "Ball(Translate(p, vec2(x, 1.0)), res, r)" := by
    decide +kernel
  exact ⟨placed, tree_eq_of_emit_eq (by decide) (by decide) placed moved⟩

end DistanceField
