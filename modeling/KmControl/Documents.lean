import KmControl.XmlReader

/-!
The documents in which the host tells of itself: one element after another within the root,
with their texts escaped or free of what would be escaped.
-/
namespace KmControl.Documents

open Pairing XmlReader

section Escapes

/-- Every occurrence of a character is replaced. -/
def replaceChar (c : Char) (new : String) (s : String) : String :=
  String.ofList (s.toList.flatMap fun x => if x = c then new.toList else [x])

def escapeXml (s : String) : String :=
  replaceChar '"' "&quot;" (replaceChar '>' "&gt;" (replaceChar '<' "&lt;"
    (replaceChar '&' "&amp;" s)))

def escapeChar (c : Char) : List Char :=
  if c = '&' then "&amp;".toList
  else if c = '<' then "&lt;".toList
  else if c = '>' then "&gt;".toList
  else if c = '"' then "&quot;".toList
  else [c]

theorem toList_escapeXml (s : String) : (escapeXml s).toList = s.toList.flatMap escapeChar := by
  unfold escapeXml replaceChar
  simp only [String.toList_ofList, List.flatMap_assoc]
  refine List.flatMap_congr fun c _ => ?_
  unfold escapeChar
  by_cases hamp : c = '&'
  · subst hamp
    decide
  · by_cases hlt : c = '<'
    · subst hlt
      decide
    · by_cases hgt : c = '>'
      · subst hgt
        decide
      · by_cases hquot : c = '"'
        · subst hquot
          decide
        · simp [hamp, hlt, hgt, hquot]

/-- What a text with entities stands for. -/
def unescape : List Char → Option (List Char)
  | [] => some []
  | '&' :: 'a' :: 'm' :: 'p' :: ';' :: t => (unescape t).map ('&' :: ·)
  | '&' :: 'l' :: 't' :: ';' :: t => (unescape t).map ('<' :: ·)
  | '&' :: 'g' :: 't' :: ';' :: t => (unescape t).map ('>' :: ·)
  | '&' :: 'q' :: 'u' :: 'o' :: 't' :: ';' :: t => (unescape t).map ('"' :: ·)
  | c :: t => if c = '&' then none else (unescape t).map (c :: ·)

theorem unescape_escapeChar (c : Char) (t : List Char) :
    unescape (escapeChar c ++ t) = (unescape t).map (c :: ·) := by
  by_cases hamp : c = '&'
  · subst hamp
    rfl
  · unfold escapeChar
    rw [if_neg hamp]
    split
    · rename_i heq
      subst heq
      rfl
    · split
      · rename_i heq
        subst heq
        rfl
      · split
        · rename_i heq
          subst heq
          rfl
        · simp [unescape, hamp]

theorem unescape_escaped (l : List Char) : unescape (l.flatMap escapeChar) = some l := by
  induction l with
  | nil => rfl
  | cons c l ih => rw [List.flatMap_cons, unescape_escapeChar, ih, Option.map_some]

theorem not_mem_escapeXml {c : Char} (h : c = '<' ∨ c = '>') (s : String) :
    c ∉ (escapeXml s).toList := by
  rw [toList_escapeXml]
  intro hmem
  obtain ⟨x, -, hx⟩ := List.mem_flatMap.mp hmem
  unfold escapeChar at hx
  split at hx
  · rcases h with rfl | rfl <;> exact absurd hx (by decide)
  · split at hx
    · rcases h with rfl | rfl <;> exact absurd hx (by decide)
    · split at hx
      · rcases h with rfl | rfl <;> exact absurd hx (by decide)
      · split at hx
        · rcases h with rfl | rfl <;> exact absurd hx (by decide)
        · obtain rfl := List.mem_singleton.mp hx
          rcases h with rfl | rfl <;> contradiction

/-- A text without the characters that are escaped. -/
def Plain (s : String) : Prop := ∀ c ∈ "&<>\"".toList, c ∉ s.toList

theorem escapeXml_of_plain {s : String} (h : Plain s) : escapeXml s = s := by
  have hid : s.toList.flatMap escapeChar = s.toList.flatMap fun c => [c] := by
    refine List.flatMap_congr fun c hc => ?_
    have hne : ∀ x ∈ "&<>\"".toList, c ≠ x := fun x hx heq => h x hx (heq ▸ hc)
    unfold escapeChar
    rw [if_neg (hne '&' (by decide)), if_neg (hne '<' (by decide)), if_neg (hne '>' (by decide)),
      if_neg (hne '"' (by decide))]
  have htext : (escapeXml s).toList = s.toList := by
    rw [toList_escapeXml, hid]
    exact List.flatMap_singleton' _
  exact String.toList_inj.mp htext

end Escapes

section Documents

/-- The elements of a reply within its root. -/
def rootXml (elements : List (String × String)) : String :=
  "<root status_code=\"200\">" ++ elements.foldr (fun e rest => element e ++ rest) "</root>"

/-- A character that a text can have and that is read as it is. -/
def isXmlChar (c : Char) : Bool := 32 ≤ c.toNat ∧ c.toNat ≠ 0xfffe ∧ c.toNat ≠ 0xffff

structure ElementOk (e : String × String) : Prop where
  tag : e.1.toList ≠ [] ∧ e.1.toList.all Char.isAlphanum = true
  text : e.2.toList.all isXmlChar = true

/-- What is read of an element: its text, if it has one. -/
def readElement (e : String × String) : String × Option String :=
  (e.1, if e.2 = "" then none else some e.2)

/-- Elements within a root are read with their texts, which were escaped. -/
def ReadsDocuments (xml : XmlTypes) : Prop :=
  ∀ elements : List (String × String), (∀ e ∈ elements, ElementOk e) →
    xml.parse (rootXml (elements.map fun e => (e.1, escapeXml e.2))) =
      some (("root", none) :: elements.map readElement)

end Documents

section Reader

/-- The text that an element begins with, if it can be read. -/
def textAfter : List Token → Option (Option String)
  | .text t :: _ => (unescape t).map fun t => some (String.ofList t)
  | _ => some none

/-- The elements in their order, inside these that are open. -/
def nodes : (inside : List (List Char)) → List Token → Option Doc
  | _, [] => none
  | inside, .opening name :: rest => do
    let text ← textAfter rest
    let doc ← nodes (name :: inside) rest
    some ((String.ofList name, text) :: doc)
  | [], .closing _ :: _ => none
  | name :: inside, .closing name' :: rest =>
    if name ≠ name' then none
    else if inside = [] then (if rest.all Token.isBlank then some [] else none)
    else nodes inside rest
  | inside, .text t :: rest =>
    if (unescape t).isNone ∨ inside = [] ∧ t.all Decimal.isWhitespace = false then none
    else nodes inside rest

def parse (s : String) : Option Doc := (scan false [] s.toList).bind (nodes [])

theorem toList_element (tag text : String) (rest : List Char) :
    (element (tag, text)).toList ++ rest =
      '<' :: (tag.toList ++ '>' :: (text.toList ++ '<' :: ('/' :: tag.toList ++ '>' :: rest))) := by
  have hopen : "<".toList = ['<'] := rfl
  have hclose : ">".toList = ['>'] := rfl
  have hend : "</".toList = ['<', '/'] := rfl
  simp only [element, String.toList_append, hopen, hclose, hend, List.append_assoc,
    List.cons_append, List.nil_append]

/-- The tokens of an element whose text is escaped. -/
def tokensOf (e : String × String) : List Token :=
  .opening e.1.toList :: textOf (escapeXml e.2).toList ++ [.closing e.1.toList]

theorem scan_elements {elements : List (String × String)}
    (h : ∀ e ∈ elements, '>' ∉ e.1.toList ∧ tagOf e.1.toList = .opening e.1.toList) :
    scan false [] (elements.foldr (fun e rest => element (e.1, escapeXml e.2) ++ rest)
      "</root>").toList =
        some (elements.flatMap tokensOf ++ [.closing "root".toList]) := by
  induction elements with
  | nil => exact scan_root
  | cons e elements ih =>
    obtain ⟨htag, hopening⟩ := h e List.mem_cons_self
    have hrest := ih fun e' he' => h e' (List.mem_cons_of_mem e he')
    have hclosed : '>' ∉ '/' :: e.1.toList := List.not_mem_cons_of_ne_of_not_mem (by decide) htag
    have htext := not_mem_escapeXml (c := '<') (Or.inl rfl) e.2
    rw [List.foldr_cons, List.flatMap_cons]
    generalize elements.foldr (fun e rest => element (e.1, escapeXml e.2) ++ rest) "</root>" =
      tail at hrest
    have hend : tagOf ('/' :: e.1.toList) = .closing e.1.toList := rfl
    rw [String.toList_append, toList_element, scan_tag htag, hopening, tokensOf, textOf]
    by_cases hempty : (escapeXml e.2).toList = []
    · rw [hempty, List.nil_append, if_pos rfl, scan_tag hclosed, hrest, hend]
      simp only [Option.map_some, List.append_assoc, List.cons_append, List.nil_append]
    · rw [scan_text_tag hclosed htext hempty, if_neg hempty, hrest, hend]
      simp only [Option.map_some, List.append_assoc, List.cons_append, List.nil_append]

theorem nodes_opening (inside : List (List Char)) (name : List Char) (rest : List Token) :
    nodes inside (.opening name :: rest) = (textAfter rest).bind fun text =>
      (nodes (name :: inside) rest).map ((String.ofList name, text) :: ·) := by
  rw [nodes]
  cases textAfter rest with
  | none => rfl
  | some text => cases nodes (name :: inside) rest <;> rfl

/-- An element within the root. -/
theorem nodes_element (e : String × String) (root : List Char) (rest : List Token) :
    nodes [root] (tokensOf e ++ rest) = (nodes [root] rest).map (readElement e :: ·) := by
  have hname : String.ofList e.1.toList = e.1 := String.ofList_toList
  have hback : unescape (escapeXml e.2).toList = some e.2.toList := by
    rw [toList_escapeXml, unescape_escaped]
  have hclose : nodes [e.1.toList, root] (.closing e.1.toList :: rest) = nodes [root] rest := by
    simp [nodes]
  unfold tokensOf textOf readElement
  by_cases hempty : (escapeXml e.2).toList = []
  · have htext : e.2 = "" := by
      rw [hempty] at hback
      exact String.toList_inj.mp (Option.some.inj hback).symm
    rw [if_pos hempty, if_pos htext]
    simp only [List.cons_append, List.nil_append]
    rw [nodes_opening, hclose, hname]
    rfl
  · have htext : e.2 ≠ "" := by
      intro heq
      rw [heq] at hempty
      exact hempty (by decide)
    have hskip : nodes [e.1.toList, root]
        (.text (escapeXml e.2).toList :: .closing e.1.toList :: rest) = nodes [root] rest := by
      rw [nodes, hback, if_neg (by simp), hclose]
    rw [if_neg hempty, if_neg htext]
    simp only [List.cons_append, List.nil_append]
    rw [nodes_opening, hskip, hname, textAfter, hback, Option.map_some, Option.bind_some,
      String.ofList_toList]

theorem nodes_elements (elements : List (String × String)) (root : List Char) :
    nodes [root] (elements.flatMap tokensOf ++ [.closing root]) =
      some (elements.map readElement) := by
  induction elements with
  | nil => simp [nodes]
  | cons e elements ih =>
    rw [List.flatMap_cons, List.append_assoc, nodes_element, ih, Option.map_some, List.map_cons]

theorem tagOf_alphanum {l : List Char} (h : l.all Char.isAlphanum = true) :
    tagOf l = .opening l := by
  have hall := List.all_eq_true.mp h
  have htake : l.takeWhile (· ≠ ' ') = l := by
    refine List.takeWhile_eq_self_iff.mpr fun c hc => decide_eq_true ?_
    rintro rfl
    exact absurd (hall _ hc) (by decide)
  unfold tagOf
  split
  · exact absurd (hall _ List.mem_cons_self) (by decide)
  · rw [htake]

/-- The reader takes a document for the elements that it was written from. -/
theorem readsDocuments : ReadsDocuments ⟨parse⟩ := by
  intro elements h
  have htags : ∀ e ∈ elements, '>' ∉ e.1.toList ∧ tagOf e.1.toList = .opening e.1.toList := by
    intro e he
    have hall := (h e he).tag.2
    exact ⟨fun hmem => absurd (List.all_eq_true.mp hall _ hmem) (by decide), tagOf_alphanum hall⟩
  have hfirst : textAfter (elements.flatMap tokensOf ++ [.closing "root".toList]) = some none := by
    cases elements <;> rfl
  have hopen : '>' ∉ "root status_code=\"200\"".toList ∧
      tagOf "root status_code=\"200\"".toList = .opening "root".toList := by decide +kernel
  have hshape : "<root status_code=\"200\">".toList =
      '<' :: ("root status_code=\"200\"".toList ++ ['>']) := by decide +kernel
  change parse (rootXml _) = _
  unfold parse rootXml
  rw [List.foldr_map, String.toList_append, hshape]
  simp only [List.cons_append, List.append_assoc, List.nil_append]
  rw [scan_tag hopen.1, hopen.2, scan_elements htags, Option.map_some, Option.bind_some,
    nodes_opening, hfirst, Option.bind_some, nodes_elements, Option.map_some, String.ofList_toList]

end Reader

end KmControl.Documents
