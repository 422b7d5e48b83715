import ActionCatalogue.App.Method

/-!
References from an action to one operation of a swagger document, written as the path, a slash and
the method: `/pets/{id}/GET`.
-/

namespace ActionCatalogue

structure SwaggerPath where
  path : String
  method : Method
deriving DecidableEq, Repr

namespace SwaggerPath

def text (p : SwaggerPath) : String := p.path ++ "/" ++ p.method.name

def splitLast? (cs : List Char) : Option (List Char × List Char) :=
  match cs with
  | [] => none
  | c :: rest =>
    match splitLast? rest with
    | some (before, after) => some (c :: before, after)
    | none => if c = '/' then some ([], rest) else none

def parse (s : String) : Except DataError SwaggerPath :=
  match splitLast? s.toList with
  | none => .error (.invalid s!"swagger path '{s}' has no method suffix")
  | some (path, method) =>
    if path.head? = some '/' then do
      return ⟨String.ofList path, ← Method.parse (String.ofList method)⟩
    else .error (.invalid s!"swagger path '{s}' must start with '/'")

def toJson (p : SwaggerPath) : Json.Value := .text p.text

def ofNode (n : Node) : Reading SwaggerPath := do
  match parse (← n.asText) with
  | .ok p => .ok p
  | .error e => .error (.rule e)

theorem splitLast?_eq_none {cs : List Char} (plain : '/' ∉ cs) : splitLast? cs = none := by
  induction cs with
  | nil => rfl
  | cons c rest ih =>
    simp only [List.mem_cons, not_or] at plain
    rw [splitLast?, ih plain.2]
    exact if_neg (Ne.symm plain.1)

/-- A text is split at its last slash. -/
theorem splitLast?_append {after : List Char} (plain : '/' ∉ after) (before : List Char) :
    splitLast? (before ++ '/' :: after) = some (before, after) := by
  induction before with
  | nil =>
    rw [List.nil_append, splitLast?, splitLast?_eq_none plain]
    exact if_pos rfl
  | cons c rest ih => rw [List.cons_append, splitLast?, ih]

theorem toList_text (p : SwaggerPath) :
    p.text.toList = p.path.toList ++ '/' :: p.method.name.toList := by
  simp [text]

/-- What was written is read again, provided that the path starts with a slash. -/
theorem parse_text {p : SwaggerPath} (rooted : p.path.toList.head? = some '/') :
    parse p.text = .ok p := by
  have split := splitLast?_append p.method.slash_not_mem_name p.path.toList
  rw [parse, toList_text, split]
  simp [rooted, Method.parse_name, bind, Except.bind, pure, Except.pure]

end SwaggerPath

end ActionCatalogue
