import BatchScript.Outline
import BatchScript.Proofs.Tree.Basic

/-!
# The pieces of an outline

A line of an outline is made of fixed marks, none of which ends the line, and of the texts of the node that
it shows. The texts stand in it as they are and in their order (`Leaf.line_pieces`, `Statement.texts_pieces` and
their kin).
-/

namespace BatchScript

open Outline

/-! ## The texts of a node -/

/-- The texts of a redirection. -/
def Redirection.texts (r : Redirection) : List String :=
  [r.mode, r.destination]

/-- The texts of a condition. -/
def Condition.texts : Condition → List String
  | .comparison left operator right => [left, operator, right]
  | .pathExists path => [path]
  | .negated inner => inner.texts

/-- The texts of a leaf. -/
def Leaf.texts : Leaf → List String
  | .comment text => [text]
  | .assignment name value => [name, value]
  | .goto target => [target]
  | .invoke target arguments => target :: arguments
  | .emit message _ redirections => message :: redirections.flatMap Redirection.texts

/-- The texts of a statement, the variable of a loop among them, without those of the statements inside it. -/
def Statement.texts : Statement → List String
  | .leaf l => l.texts
  | .label name => [name]
  | .branch condition _ _ => condition.texts
  | .loop option loopVar source _ => option.toList ++ [.singleton loopVar, source]
  | .chain .. => []

/-! ## Pieces -/

/-- A piece of a line. -/
inductive Piece where
  /-- A mark of the layout, which never ends the line. -/
  | mark (written : String) (stays : '\n' ∉ written.toList := by decide)
  | text (t : String)

namespace Piece

/-- The mark that ends a node with other nodes in it. -/
def closing : Piece :=
  .mark "\x7d>"

/-- Pieces with a name. -/
def named (name : String) (pieces : List Piece) (stays : '\n' ∉ name.toList := by decide) : List Piece :=
  .mark " " :: .mark name stays :: .mark "=\x7b" :: (pieces ++ [.mark "\x7d"])

/-- A piece as it is written. -/
def written : Piece → String
  | .mark w _ => w
  | .text t => t

/-- Pieces one behind the other. -/
def line (pieces : List Piece) : String :=
  .join (pieces.map written)

/-- The texts among some pieces. -/
def texts (pieces : List Piece) : List String :=
  pieces.flatMap fun
    | .mark .. => []
    | .text t => [t]

@[simp] theorem written_mark (w : String) (h : '\n' ∉ w.toList) : (mark w h).written = w := rfl

@[simp] theorem written_text (t : String) : (text t).written = t := rfl

@[simp] theorem written_closing : closing.written = "\x7d>" := rfl

@[simp] theorem line_nil : line [] = "" := rfl

@[simp] theorem line_cons (p : Piece) (ps : List Piece) : line (p :: ps) = p.written ++ line ps := by
  simp [line]

@[simp] theorem line_append (ps qs : List Piece) : line (ps ++ qs) = line ps ++ line qs := by
  simp [line]

@[simp] theorem line_named (name : String) (ps : List Piece) (h : '\n' ∉ name.toList) :
    line (named name ps h) = field name (line ps) := by
  simp [named, field, String.append_assoc]

theorem line_intercalate (separator : Piece) (items : List (List Piece)) :
    line ([separator].intercalate items) = separator.written.intercalate (items.map line) := by
  induction items with
  | nil => rfl
  | cons item others ih =>
    cases others with
    | nil => simp
    | cons other others =>
      rw [List.intercalate_cons_cons, List.map_cons, String.intercalate_cons_of_ne_nil (by simp), ← ih]
      simp [String.append_assoc]

@[simp] theorem texts_nil : texts [] = [] := rfl

@[simp] theorem texts_mark (w : String) (h : '\n' ∉ w.toList) (ps : List Piece) :
    texts (.mark w h :: ps) = texts ps := rfl

@[simp] theorem texts_closing (ps : List Piece) : texts (closing :: ps) = texts ps := rfl

@[simp] theorem texts_text (t : String) (ps : List Piece) : texts (.text t :: ps) = t :: texts ps := rfl

@[simp] theorem texts_append (ps qs : List Piece) : texts (ps ++ qs) = texts ps ++ texts qs :=
  List.flatMap_append

@[simp] theorem texts_named (name : String) (ps : List Piece) (h : '\n' ∉ name.toList) :
    texts (named name ps h) = texts ps := by
  simp [named]

theorem texts_intercalate {w : String} (h : '\n' ∉ w.toList) (items : List (List Piece)) :
    texts ([Piece.mark w h].intercalate items) = items.flatMap texts := by
  induction items with
  | nil => rfl
  | cons item others ih =>
    cases others with
    | nil => simp
    | cons other others =>
      rw [List.intercalate_cons_cons, List.flatMap_cons, ← ih]
      simp

end Piece

section Pieces

open Piece (closing named line line_intercalate texts_intercalate)

/-- The pieces of a redirection. -/
def Redirection.pieces (r : Redirection) : List Piece :=
  .mark "<redirection" :: (named "mode" [.text r.mode] ++ named "destination" [.text r.destination] ++ [.mark ">"])

/-- The pieces of a condition. -/
def Condition.pieces : Condition → List Piece
  | .comparison left operator right =>
    .mark "<comparison" :: (named "left" [.text left] ++ named "ope" [.text operator] ++ named "right" [.text right] ++
      [.mark ">"])
  | .pathExists path => .mark "<exists" :: (named "path" [.text path] ++ [.mark ">"])
  | .negated inner => .mark "<not \x7b" :: (inner.pieces ++ [closing])

/-- The pieces of a leaf. -/
def Leaf.pieces : Leaf → List Piece
  | .comment text => .mark "<rem" :: (named "text" [.text text] ++ [.mark ">"])
  | .assignment name value =>
    .mark "<setvariable" :: (named "name" [.text name] ++ named "value" [.text value] ++ [.mark ">"])
  | .goto target => .mark "<goto" :: (named "name" [.text target] ++ [.mark ">"])
  | .invoke target arguments =>
    .mark "<callfile" :: (named "name" [.text target] ++
      named "parameters" ([.mark ","].intercalate (arguments.map fun a => [.text a])) ++ [.mark ">"])
  | .emit message escapeMode redirections =>
    .mark "<echo" :: (named "message" [.text message] ++
      (if escapeMode then named "escape" [.mark "true"] else []) ++
      (if redirections.isEmpty then []
        else named "redirect" ([.mark " "].intercalate (redirections.map Redirection.pieces))) ++ [.mark ">"])

theorem ChainOperator.text_stays (op : ChainOperator) : '\n' ∉ op.text.toList := by
  cases op <;> decide

/-- The pieces of the first line of a statement; the statements inside it begin on the next one. -/
def Statement.pieces : Statement → List Piece
  | .leaf l => l.pieces
  | .label name => .mark "<label" :: (named "name" [.text name] ++ [.mark ">"])
  | .branch condition _ _ => .mark "<if" :: (named "condition" condition.pieces ++ [.mark " whenTrue=\x7b"])
  | .loop option loopVar source _ =>
    .mark "<for" :: (named "option" (option.toList.map .text) ++ named "parameter" [.text (.singleton loopVar)] ++
      named "set" [.text source] ++ [.mark " statements=\x7b"])
  | .chain _ operator _ =>
    .mark "<pipeline" :: (named "ope" [.mark operator.text operator.text_stays] ++ [.mark " left=\x7b"])

@[simp] theorem Redirection.line_pieces (r : Redirection) : line r.pieces = r.outline := by
  simp [pieces, outline, String.append_assoc]

@[simp] theorem Condition.line_pieces (c : Condition) : line c.pieces = c.outline := by
  induction c with
  | negated inner ih => simp [pieces, outline, ih, String.append_assoc]
  | _ => simp [pieces, outline, String.append_assoc]

@[simp] theorem Leaf.line_pieces (l : Leaf) : line l.pieces = l.outline := by
  cases l with
  | invoke target arguments =>
    simp [pieces, outline, line_intercalate, Function.comp_def, String.append_assoc]
  | emit message escapeMode redirections =>
    cases escapeMode <;> cases redirections <;>
      simp [pieces, outline, line_intercalate, Function.comp_def, String.append_assoc]
  | _ => simp [pieces, outline, String.append_assoc]

@[simp] theorem Redirection.texts_pieces (r : Redirection) : Piece.texts r.pieces = r.texts := rfl

@[simp] theorem Condition.texts_pieces (c : Condition) : Piece.texts c.pieces = c.texts := by
  induction c with
  | negated inner ih => simp [pieces, texts, ih]
  | _ => rfl

@[simp] theorem Leaf.texts_pieces (l : Leaf) : Piece.texts l.pieces = l.texts := by
  cases l with
  | invoke target arguments => simp [pieces, texts, texts_intercalate, List.flatMap_map]
  | emit message escapeMode redirections =>
    cases escapeMode <;> cases redirections <;> simp [pieces, texts, texts_intercalate, List.flatMap_map]
  | _ => rfl

@[simp] theorem Statement.texts_pieces (s : Statement) : Piece.texts s.pieces = s.texts := by
  cases s with
  | loop option loopVar source body => cases option <;> rfl
  | _ => simp [pieces, texts]

end Pieces

end BatchScript
