import BatchScript.Json

/-!
# Trees told apart by their JSON

JSON values are compared by what they say (`Json.meaning`): the members of an object have no order, and
of two members with one name the last one counts. A node says its kind as the member `type`, which none
of its other members hides, and each of its parts as a member of its own. So two trees
whose JSON says the same are the same tree (`toJson_meaning_eq_iff`).
-/

namespace BatchScript

namespace Json

/-! ## What a value says -/

/-- What a JSON value says. -/
inductive Meaning where
  | null
  | bool (value : Bool)
  | count (value : Nat)
  | text (value : String)
  | array (items : List Meaning)
  /-- What is said under each name, if anything is. -/
  | object (under : String → Option Meaning)

mutual

/-- What a value says. -/
def meaning : Json → Meaning
  | .null => .null
  | .bool b => .bool b
  | .count n => .count n
  | .text t => .text t
  | .array items => .array (itemMeanings items)
  | .object members => .object (memberMeaning members)

/-- What the items of an array say. -/
def itemMeanings : List Json → List Meaning
  | [] => []
  | item :: others => item.meaning :: itemMeanings others

/-- What the members of an object say under a name. -/
def memberMeaning : List (String × Json) → String → Option Meaning
  | [], _ => none
  | (name, value) :: others, wanted =>
    memberMeaning others wanted <|> if wanted = name then some value.meaning else none

end

theorem itemMeanings_eq_map (items : List Json) : itemMeanings items = items.map meaning := by
  induction items with
  | nil => rfl
  | cons item others ih => rw [itemMeanings, ih, List.map_cons]

/-- What is said under a name, if a value has names. -/
def Meaning.under? (name : String) : Meaning → Option Meaning
  | .object under => under name
  | _ => none

@[simp] theorem memberMeaning_nil (name : String) : memberMeaning [] name = none := by
  rw [memberMeaning]

@[simp] theorem memberMeaning_cons (m : String × Json) (others : List (String × Json)) (name : String) :
    memberMeaning (m :: others) name =
      (memberMeaning others name <|> if name = m.1 then some m.2.meaning else none) := by
  rw [memberMeaning]

@[simp] theorem under?_object (members : List (String × Json)) (name : String) :
    (object members).meaning.under? name = memberMeaning members name := by
  rw [meaning, Meaning.under?]

@[simp] theorem under?_node (kind : String) (members : List (String × Json)) (name : String) :
    (node kind members).meaning.under? name =
      (memberMeaning members name <|> if name = "type" then some (.text kind) else none) := by
  rw [node, under?_object, memberMeaning_cons, meaning]

@[simp] theorem meaning_text (t : String) : (text t).meaning = .text t := by
  rw [meaning]

@[simp] theorem meaning_bool (b : Bool) : (bool b).meaning = .bool b := by
  rw [meaning]

theorem array_meaning_inj {items items' : List Json} (h : (array items).meaning = (array items').meaning) :
    items.map meaning = items'.map meaning := by
  rw [meaning, meaning, itemMeanings_eq_map, itemMeanings_eq_map] at h
  exact Meaning.array.inj h

theorem map_meaning_inj {α : Type} {f : α → Json} (hf : ∀ a b, (f a).meaning = (f b).meaning → a = b)
    {xs ys : List α} (h : (array (xs.map f)).meaning = (array (ys.map f)).meaning) : xs = ys := by
  have h := array_meaning_inj h
  rw [List.map_map, List.map_map] at h
  exact (List.map_inj_right hf).mp h

theorem texts_meaning_inj {xs ys : List String} (h : (texts xs).meaning = (texts ys).meaning) : xs = ys :=
  map_meaning_inj (fun a b h => by simpa using h) h

theorem textOrNull_meaning_inj {t u : Option String} (h : (textOrNull t).meaning = (textOrNull u).meaning) : t = u := by
  cases t <;> cases u <;> simp_all [textOrNull, meaning]

end Json

open Json

/-! ## Parts of a statement -/

theorem Redirection.toJson_meaning_inj (r r' : Redirection) (h : r.toJson.meaning = r'.toJson.meaning) : r = r' := by
  have hm : r.mode = r'.mode := by simpa [toJson] using congrArg (·.under? "mode") h
  have hd : r.destination = r'.destination := by simpa [toJson] using congrArg (·.under? "destination") h
  cases r; cases r'
  rw [Redirection.mk.injEq]
  exact ⟨hm, hd⟩

theorem Condition.toJson_meaning_inj (c c' : Condition) (h : c.toJson.meaning = c'.toJson.meaning) : c = c' := by
  have hk := congrArg (·.under? "type") h
  induction c generalizing c' with
  | comparison left operator right =>
    cases c' with
    | comparison left' operator' right' =>
      have hl : left = left' := by simpa [toJson] using congrArg (·.under? "left") h
      have ho : operator = operator' := by simpa [toJson] using congrArg (·.under? "operator") h
      have hr : right = right' := by simpa [toJson] using congrArg (·.under? "right") h
      rw [hl, ho, hr]
    | _ => simp [toJson] at hk
  | pathExists path =>
    cases c' with
    | pathExists path' =>
      have hp : path = path' := by simpa [toJson] using congrArg (·.under? "path") h
      rw [hp]
    | _ => simp [toJson] at hk
  | negated inner ih =>
    cases c' with
    | negated inner' =>
      have hi : inner.toJson.meaning = inner'.toJson.meaning := by simpa [toJson] using congrArg (·.under? "inner") h
      rw [ih inner' hi (congrArg _ hi)]
    | _ => simp [toJson] at hk

theorem Leaf.toJson_meaning_inj (l m : Leaf)
    (h : (node l.kindName l.members).meaning = (node m.kindName m.members).meaning) : l = m := by
  have hk := congrArg (·.under? "type") h
  cases l with
  | comment text =>
    cases m with
    | comment text' =>
      have ht : text = text' := by simpa [members] using congrArg (·.under? "text") h
      rw [ht]
    | _ => simp [members, kindName] at hk
  | assignment name value =>
    cases m with
    | assignment name' value' =>
      have hn : name = name' := by simpa [members] using congrArg (·.under? "name") h
      have hv : value = value' := by simpa [members] using congrArg (·.under? "value") h
      rw [hn, hv]
    | _ => simp [members, kindName] at hk
  | goto target =>
    cases m with
    | goto target' =>
      have ht : target = target' := by simpa [members] using congrArg (·.under? "target") h
      rw [ht]
    | _ => simp [members, kindName] at hk
  | invoke target arguments =>
    cases m with
    | invoke target' arguments' =>
      have ht : target = target' := by simpa [members] using congrArg (·.under? "target") h
      have ha : (Json.texts arguments).meaning = (Json.texts arguments').meaning := by
        simpa [members] using congrArg (·.under? "arguments") h
      rw [ht, texts_meaning_inj ha]
    | _ => simp [members, kindName] at hk
  | emit message escapeMode redirections =>
    cases m with
    | emit message' escapeMode' redirections' =>
      have hm : message = message' := by simpa [members] using congrArg (·.under? "message") h
      have he : escapeMode = escapeMode' := by simpa [members] using congrArg (·.under? "escape_mode") h
      have hr : (array (redirections.map Redirection.toJson)).meaning =
          (array (redirections'.map Redirection.toJson)).meaning := by
        simpa [members] using congrArg (·.under? "redirections") h
      rw [hm, he, map_meaning_inj Redirection.toJson_meaning_inj hr]
    | _ => simp [members, kindName] at hk

/-! ## Statements -/

theorem Statement.under?_type (s : Statement) : s.toJson.meaning.under? "type" = some (.text s.kindName) := by
  cases s with
  | leaf l => cases l <;> simp [toJson, kindName, Leaf.kindName, Leaf.members]
  | _ => simp [toJson, kindName]

mutual

theorem Statement.toJson_meaning_inj (s t : Statement) (h : s.toJson.meaning = t.toJson.meaning) : s = t := by
  have hk : s.kindName = t.kindName := by
    simpa [Statement.under?_type] using congrArg (·.under? "type") h
  cases s with
  | leaf l =>
    cases t with
    | leaf m => rw [Leaf.toJson_meaning_inj l m h]
    | _ => cases l <;> simp [Statement.kindName, Leaf.kindName] at hk
  | label name =>
    cases t with
    | leaf m => cases m <;> simp [Statement.kindName, Leaf.kindName] at hk
    | label name' =>
      have hn : name = name' := by simpa [Statement.toJson] using congrArg (·.under? "name") h
      rw [hn]
    | _ => simp [Statement.kindName] at hk
  | branch c thenBody elseBody =>
    cases t with
    | leaf m => cases m <;> simp [Statement.kindName, Leaf.kindName] at hk
    | branch c' thenBody' elseBody' =>
      have hc : c.toJson.meaning = c'.toJson.meaning := by
        simpa [Statement.toJson] using congrArg (·.under? "condition") h
      have ht : (array (bodyToJson thenBody)).meaning = (array (bodyToJson thenBody')).meaning := by
        simpa [Statement.toJson] using congrArg (·.under? "then_body") h
      have he : (elseToJson elseBody).meaning = (elseToJson elseBody').meaning := by
        simpa [Statement.toJson] using congrArg (·.under? "else_body") h
      rw [Condition.toJson_meaning_inj c c' hc, body_meaning_inj thenBody thenBody' (array_meaning_inj ht),
        else_meaning_inj elseBody elseBody' he]
    | _ => simp [Statement.kindName] at hk
  | loop option loopVar source body =>
    cases t with
    | leaf m => cases m <;> simp [Statement.kindName, Leaf.kindName] at hk
    | loop option' loopVar' source' body' =>
      have ho : (textOrNull option).meaning = (textOrNull option').meaning := by
        simpa [Statement.toJson] using congrArg (·.under? "option") h
      have hv : loopVar = loopVar' := by
        simpa [Statement.toJson] using congrArg (·.under? "loop_var") h
      have hs : source = source' := by simpa [Statement.toJson] using congrArg (·.under? "source_expr") h
      have hb : (array (bodyToJson body)).meaning = (array (bodyToJson body')).meaning := by
        simpa [Statement.toJson] using congrArg (·.under? "body") h
      rw [textOrNull_meaning_inj ho, hv, hs, body_meaning_inj body body' (array_meaning_inj hb)]
    | _ => simp [Statement.kindName] at hk
  | chain left op right =>
    cases t with
    | leaf m => cases m <;> simp [Statement.kindName, Leaf.kindName] at hk
    | chain left' op' right' =>
      have hl : left.toJson.meaning = left'.toJson.meaning := by
        simpa [Statement.toJson] using congrArg (·.under? "left") h
      have ho : op.text = op'.text := by simpa [Statement.toJson] using congrArg (·.under? "operator") h
      have hr : right.toJson.meaning = right'.toJson.meaning := by
        simpa [Statement.toJson] using congrArg (·.under? "right") h
      rw [left.toJson_meaning_inj left' hl, ChainOperator.text_inj ho, right.toJson_meaning_inj right' hr]
    | _ => simp [Statement.kindName] at hk

theorem body_meaning_inj (body other : List Statement)
    (h : (bodyToJson body).map meaning = (bodyToJson other).map meaning) : body = other := by
  cases body with
  | nil =>
    cases other with
    | nil => rfl
    | cons t other => simp [bodyToJson] at h
  | cons s body =>
    cases other with
    | nil => simp [bodyToJson] at h
    | cons t other =>
      obtain ⟨hs, hb⟩ : s.toJson.meaning = t.toJson.meaning ∧
          (bodyToJson body).map meaning = (bodyToJson other).map meaning := by simpa [bodyToJson] using h
      rw [s.toJson_meaning_inj t hs, body_meaning_inj body other hb]

theorem else_meaning_inj (body other : Option (List Statement))
    (h : (elseToJson body).meaning = (elseToJson other).meaning) : body = other := by
  cases body with
  | none =>
    cases other with
    | none => rfl
    | some other => simp [elseToJson, meaning] at h
  | some body =>
    cases other with
    | none => simp [elseToJson, meaning] at h
    | some other => rw [body_meaning_inj body other (array_meaning_inj (by simpa [elseToJson] using h))]

end

theorem Document.toJson_meaning_inj (d e : Document) (h : d.toJson.meaning = e.toJson.meaning) : d = e := by
  have hs : (array (d.statements.map Statement.toJson)).meaning =
      (array (e.statements.map Statement.toJson)).meaning := by
    simpa [toJson] using congrArg (·.under? "statements") h
  cases d; cases e
  exact congrArg Document.mk (map_meaning_inj Statement.toJson_meaning_inj hs)

/-- Trees whose JSON says the same are the same: whole scripts, statements at any depth, and conditions. -/
theorem toJson_meaning_eq_iff :
    (∀ d e : Document, d.toJson.meaning = e.toJson.meaning ↔ d = e) ∧
    (∀ s t : Statement, s.toJson.meaning = t.toJson.meaning ↔ s = t) ∧
    ∀ c c' : Condition, c.toJson.meaning = c'.toJson.meaning ↔ c = c' :=
  ⟨fun d e => ⟨d.toJson_meaning_inj e, fun h => h ▸ rfl⟩,
    fun s t => ⟨s.toJson_meaning_inj t, fun h => h ▸ rfl⟩,
    fun c c' => ⟨c.toJson_meaning_inj c', fun h => h ▸ rfl⟩⟩

end BatchScript
