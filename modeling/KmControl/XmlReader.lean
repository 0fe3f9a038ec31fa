import KmControl.Pairing

/-!
A reader of documents: the text is cut at its tags, of which each closing one has to be for
the element that was opened last. It takes no entities, comments or declarations.
-/
namespace KmControl.XmlReader

open Pairing

section Tokens

inductive Token where
  | opening (name : List Char)
  | closing (name : List Char)
  | text (t : List Char)
deriving DecidableEq

/-- What stands between angle brackets; the attributes come after the name. -/
def tagOf : List Char → Token
  | '/' :: name => .closing name
  | tag => .opening (tag.takeWhile (· ≠ ' '))

def textOf (t : List Char) : List Token := if t = [] then [] else [.text t]

/-- The tokens of a text, of which these characters have been read last, in a tag or not. -/
def scan : (inTag : Bool) → (read rest : List Char) → Option (List Token)
  | true, _, [] => none
  | false, read, [] => some (textOf read)
  | true, read, c :: rest =>
    if c = '>' then (scan false [] rest).map (tagOf read :: ·) else scan true (read ++ [c]) rest
  | false, read, c :: rest =>
    if c = '<' then (scan true [] rest).map (textOf read ++ ·) else scan false (read ++ [c]) rest

theorem scan_text {t : List Char} (h : '<' ∉ t) (read rest : List Char) :
    scan false read (t ++ rest) = scan false (read ++ t) rest := by
  induction t generalizing read with
  | nil => simp
  | cons c t ih =>
    rw [List.cons_append, scan, if_neg (List.ne_of_not_mem_cons h).symm,
      ih (List.not_mem_of_not_mem_cons h)]
    simp

theorem scan_name {name : List Char} (h : '>' ∉ name) (read rest : List Char) :
    scan true read (name ++ '>' :: rest) = (scan false [] rest).map (tagOf (read ++ name) :: ·) := by
  induction name generalizing read with
  | nil => simp [scan]
  | cons c name ih =>
    rw [List.cons_append, scan, if_neg (List.ne_of_not_mem_cons h).symm,
      ih (List.not_mem_of_not_mem_cons h)]
    simp

theorem scan_tag {name : List Char} (hname : '>' ∉ name) (rest : List Char) :
    scan false [] ('<' :: (name ++ '>' :: rest)) = (scan false [] rest).map (tagOf name :: ·) := by
  rw [scan, if_pos rfl, scan_name hname, Option.map_map]
  rfl

/-- A tag after some text. -/
theorem scan_text_tag {name t : List Char} (hname : '>' ∉ name) (ht : '<' ∉ t) (hne : t ≠ [])
    (rest : List Char) : scan false [] (t ++ '<' :: (name ++ '>' :: rest)) =
      (scan false [] rest).map fun tokens => .text t :: tagOf name :: tokens := by
  rw [scan_text ht, scan, if_pos rfl, scan_name hname, Option.map_map, List.nil_append,
    List.nil_append, textOf, if_neg hne]
  rfl

end Tokens

section Documents

/-- The text that an element begins with. -/
def firstText : List Token → Option String
  | .text t :: _ => some (String.ofList t)
  | _ => none

def Token.isBlank : Token → Bool
  | .text t => t.all Decimal.isWhitespace
  | _ => false

/-- The elements in their order, inside these that are open. -/
def elements : (inside : List (List Char)) → List Token → Option Doc
  | _, [] => none
  | inside, .opening name :: rest =>
    (elements (name :: inside) rest).map ((String.ofList name, firstText rest) :: ·)
  | [], .closing _ :: _ => none
  | name :: inside, .closing name' :: rest =>
    if name ≠ name' then none
    else if inside = [] then (if rest.all Token.isBlank then some [] else none)
    else elements inside rest
  | inside, .text t :: rest =>
    if '&' ∈ t ∨ inside = [] ∧ t.all Decimal.isWhitespace = false then none
    else elements inside rest

def parse (s : String) : Option Doc := (scan false [] s.toList).bind (elements [])

end Documents

section Replies

/-- An element with its text. -/
theorem scan_element {tag t : List Char} (htag : '>' ∉ tag) (ht : '<' ∉ t) (hne : t ≠ [])
    (rest : List Char) :
    scan false [] ('<' :: (tag ++ '>' :: (t ++ '<' :: ('/' :: tag ++ '>' :: rest)))) =
      (scan false [] rest).map fun tokens =>
        tagOf tag :: .text t :: .closing tag :: tokens := by
  have hclosed : '>' ∉ '/' :: tag := List.not_mem_cons_of_ne_of_not_mem (by decide) htag
  rw [scan_tag htag, scan_text_tag hclosed ht hne, Option.map_map]
  rfl

/-- The tokens of a reply, but for those of what it carries. -/
theorem scan_reply {root paired : List Char} (hroot : '>' ∉ root) (hpaired : '>' ∉ paired)
    (rest : List Char) :
    scan false [] ('<' :: (root ++ '>' :: '<' :: (paired ++ '>' :: (['1'] ++ '<' ::
      ('/' :: paired ++ '>' :: rest))))) = (scan false [] rest).map fun tokens =>
        tagOf root :: tagOf paired :: .text ['1'] :: .closing paired :: tokens := by
  rw [scan_tag hroot, scan_element hpaired (t := ['1']) (by decide) (List.cons_ne_nil _ _),
    Option.map_map]
  rfl

theorem scan_pairedXml (inner : String) : scan false [] (pairedXml inner).toList =
    (scan false [] (inner.toList ++ "</root>".toList)).map fun tokens =>
      .opening "root".toList :: .opening "paired".toList :: .text ['1'] ::
        .closing "paired".toList :: tokens := by
  have htext : (pairedXml inner).toList = '<' :: ("root status_code=\"200\"".toList ++ '>' ::
      '<' :: ("paired".toList ++ '>' :: (['1'] ++ '<' :: ('/' :: "paired".toList ++ '>' ::
        (inner.toList ++ "</root>".toList))))) := by
    unfold pairedXml
    rw [String.toList_append, String.toList_append]
    rfl
  exact (congrArg (scan false []) htext).trans
    (scan_reply (by decide +kernel) (by decide +kernel) _)

theorem not_mem_hexEncode {c : Char} (h : hexValue c = none) (l : Bytes) :
    c ∉ (hexEncode l).toList := by
  rw [hexEncode, String.toList_ofList]
  intro hmem
  obtain ⟨b, -, hb⟩ := List.mem_flatMap.mp hmem
  have hlt := b.toNat_lt
  rcases List.mem_cons.mp hb with rfl | hb
  · exact nomatch (hexValue_digitChar (show b.toNat / 16 < 16 by omega)).1.symm.trans h
  · obtain rfl := List.mem_singleton.mp hb
    exact nomatch (hexValue_digitChar (show b.toNat % 16 < 16 by omega)).1.symm.trans h

theorem scan_root : scan false [] "</root>".toList = some [.closing "root".toList] := by
  decide +kernel

/-- The elements of a reply that carries nothing. -/
theorem parse_paired : parse (pairedXml "") = some [("root", none), ("paired", some "1")] := by
  unfold parse
  rw [scan_pairedXml]
  change ((scan false [] "</root>".toList).map _).bind _ = _
  rw [scan_root]
  decide +kernel

theorem elements_reply (root paired tag : List Char) {t : List Char} (ht : '&' ∉ t) :
    elements [] [.opening root, .opening paired, .text ['1'], .closing paired, .opening tag, .text t,
      .closing tag, .closing root] = some [(String.ofList root, none),
        (String.ofList paired, some "1"), (String.ofList tag, some (String.ofList t))] := by
  simp [elements, firstText, ht]

/-- The elements of a reply that carries bytes. -/
theorem parse_element {tag : String} (hname : '>' ∉ tag.toList)
    (htag : tagOf tag.toList = .opening tag.toList) {l : Bytes} (hl : l ≠ []) :
    parse (pairedXml (element (tag, hexEncode l))) =
      some [("root", none), ("paired", some "1"), (tag, some (hexEncode l))] := by
  have hhex : (hexEncode l).toList ≠ [] := by
    intro hnil
    have hback := hexDecode_hexEncode l
    unfold hexDecode at hback
    rw [hnil] at hback
    exact hl (Option.some.inj hback).symm
  have htext : (element (tag, hexEncode l)).toList ++ "</root>".toList = '<' :: (tag.toList ++
      '>' :: ((hexEncode l).toList ++ '<' :: ('/' :: tag.toList ++ '>' :: "</root>".toList))) := by
    unfold element
    simp only [String.toList_append, List.append_assoc]
    rfl
  have hscan := (congrArg (scan false []) htext).trans
    (scan_element hname (not_mem_hexEncode (by decide) l) hhex _)
  have hdoc := elements_reply "root".toList "paired".toList tag.toList
    (not_mem_hexEncode (show hexValue '&' = none by decide) l)
  rw [String.ofList_toList, String.ofList_toList, String.ofList_toList, String.ofList_toList] at hdoc
  unfold parse
  rw [scan_pairedXml, hscan, scan_root, htag]
  exact hdoc

/-- The reader takes the replies for what they are. -/
theorem xmlTypes_lawful : XmlTypes.Lawful ⟨parse⟩ where
  paired := ⟨none, parse_paired⟩
  element tag htag l hl := by
    have hname : '>' ∉ tag.toList ∧ tagOf tag.toList = .opening tag.toList := by
      simp only [List.mem_cons, List.not_mem_nil, or_false] at htag
      rcases htag with rfl | rfl | rfl <;> decide +kernel
    exact ⟨none, parse_element hname.1 hname.2 hl⟩

end Replies

end KmControl.XmlReader
