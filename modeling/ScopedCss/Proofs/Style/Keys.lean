/-
# Keys of styles

No style that can be built holds a key twice, at no depth (`Style.Buildable.distinctKeys`).  Setting
a key is putting it into the table of the entries (`Style.entries_set`), which keeps the keys
distinct.  What is read from JSON is set as well; only `Style.ofJson` takes members as they come,
and relies on a value having no key twice.

Of entries in which keys are repeated, each key stays where it first came, with the value that came
last.  It does not matter whether the entries are set one after the other or read from a JSON text
with these members.  A `Draft` is what may be written in both ways: its keys may be repeated at
every depth.
-/

import Mathlib.Data.Finset.Card
import ScopedCss.Json.Printer
import ScopedCss.Proofs.Style.Readers
import ScopedCss.Proofs.Style.RoundTrip
import ScopedCss.Proofs.Table

namespace ScopedCss

-- Powers are those of `Nat.pow`, whichever other instances are in scope.  A literal exponent needs
-- its type, or a default would choose the instance.
attribute [local instance (high)] instPowNat

namespace Style

open Json (bind_eq_ok)

/-- The entries of a style in which entries were set are the last ones of each key. -/
theorem entries_ofEntries (es : List (String × Value)) :
    (ofEntries es).entries = Table.lasts es := by
  rw [ofEntries, entries_setAll, ← Table.putAll_eq_lasts]
  rfl

theorem keys_ofEntries (es : List (String × Value)) :
    (ofEntries es).keys = (es.map Prod.fst).eraseDups := by
  rw [keys, entries_ofEntries]
  exact Table.keys_lasts es

theorem get?_ofEntries (es : List (String × Value)) (key : String) :
    (ofEntries es).get? key = es.reverse.lookup key := by
  rw [get?, entries_ofEntries]
  exact Table.get?_lasts es key

theorem nodup_keys_ofEntries (es : List (String × Value)) : (ofEntries es).keys.Nodup := by
  rw [keys, entries_ofEntries]
  exact Table.nodup_keys_lasts es

/-- A style has as many entries as there were different keys. -/
theorem length_ofEntries (es : List (String × Value)) :
    (ofEntries es).length = (es.map Prod.fst).toFinset.card := by
  have hsame : (es.map Prod.fst).toFinset = (ofEntries es).keys.toFinset := by
    ext key
    rw [List.mem_toFinset, List.mem_toFinset, keys_ofEntries, List.mem_eraseDups]
  rw [hsame, List.toFinset_card_of_nodup (nodup_keys_ofEntries es), keys, List.length_map, length]

theorem distinctKeys_iff (style : Style) :
    style.DistinctKeys ↔ style.keys.Nodup ∧
      ∀ entry ∈ style.entries, ∀ body, entry.2 = .block body → body.DistinctKeys := by
  induction style with
  | empty => simp [DistinctKeys, entries]
  | property key value rest ih =>
      have hkeys : (Style.property key value rest).keys = key :: rest.keys := rfl
      rw [DistinctKeys, ih, hkeys, List.nodup_cons, entries, List.forall_mem_cons, and_assoc]
      simp
  | block key body rest _ ih =>
      have hkeys : (Style.block key body rest).keys = key :: rest.keys := rfl
      rw [DistinctKeys, ih, hkeys, List.nodup_cons, entries, List.forall_mem_cons]
      constructor
      · rintro ⟨hkey, hbody, hnodup, hrest⟩
        exact ⟨⟨hkey, hnodup⟩, fun _ heq => Value.block.inj heq ▸ hbody, hrest⟩
      · rintro ⟨⟨hkey, hnodup⟩, hbody, hrest⟩
        exact ⟨hkey, hbody body rfl, hnodup, hrest⟩

/-- Setting a key to a value without repeated keys repeats none. -/
theorem DistinctKeys.set {style : Style} (h : style.DistinctKeys) (key : String) {value : Value}
    (hvalue : ∀ body, value = .block body → body.DistinctKeys) :
    (style.set key value).DistinctKeys := by
  rw [distinctKeys_iff] at h ⊢
  rw [keys, entries_set]
  refine ⟨Table.nodup_keys_put h.1 key value, fun entry hentry => ?_⟩
  rcases Table.mem_of_mem_put hentry with rfl | hbefore
  · exact hvalue
  · exact h.2 entry hbefore

theorem DistinctKeys.setAll {style : Style} (h : style.DistinctKeys) {es : List (String × Value)}
    (hes : ∀ entry ∈ es, ∀ body, entry.2 = .block body → body.DistinctKeys) :
    (style.setAll es).DistinctKeys := by
  induction es generalizing style with
  | nil => exact h
  | cons entry es ih =>
      rw [List.forall_mem_cons] at hes
      exact ih (h.set entry.1 hes.1) hes.2

theorem distinctKeys_empty : DistinctKeys .empty := trivial

theorem distinctKeys_of_decodeMembers {members : List (String × Json)}
    (h : ∀ m ∈ members, ∀ body, decodeValue m.2 = .ok (.block body) → body.DistinctKeys)
    {style o : Style} (hstyle : style.DistinctKeys) (ho : decodeMembers style members = .ok o) :
    o.DistinctKeys := by
  induction members generalizing style with
  | nil =>
      cases ho
      exact hstyle
  | cons member members ih =>
      obtain ⟨y, hy, hrest⟩ := bind_eq_ok.1 ho
      have hset : (style.set member.1 y).DistinctKeys :=
        hstyle.set member.1 fun body hbody => h member List.mem_cons_self body (hbody ▸ hy)
      exact ih (fun m hm => h m (List.mem_cons_of_mem member hm)) hset hrest

theorem distinctKeys_of_decodeValue {x : Json} {body : Style}
    (h : decodeValue x = .ok (.block body)) : body.DistinctKeys := by
  induction x using Json.induction generalizing body with
  | atom a => cases h
  | list items ih => cases h
  | object members ih =>
      obtain ⟨o, ho, heq⟩ := decodeValue_object_eq_ok_iff.1 h
      cases heq
      exact distinctKeys_of_decodeMembers (fun m hm _ => ih m hm) distinctKeys_empty ho

/-- What is decoded repeats no key, whatever the value does. -/
theorem distinctKeys_of_decode {x : Json} {o : Style} (h : decode x = .ok o) : o.DistinctKeys := by
  cases x with
  | atom a => cases h
  | list items => cases h
  | object members =>
      exact distinctKeys_of_decodeMembers (fun _ _ _ => distinctKeys_of_decodeValue)
        distinctKeys_empty h

/-- The styles that can be built: by setting keys, one by one or all those of some entries, to
scalars or to blocks that can be built; and by reading a text or a JSON value.  A value to take
members from has its objects in the order of their keys. -/
inductive Buildable : Style → Prop
  | empty : Buildable .empty
  | set {style : Style} (hstyle : Buildable style) (key : String) {value : Value}
      (hvalue : ∀ body, value = .block body → Buildable body) : Buildable (style.set key value)
  | ofEntries {es : List (String × Value)}
      (hes : ∀ entry ∈ es, ∀ body, entry.2 = .block body → Buildable body) :
      Buildable (.ofEntries es)
  | parse {text : String} {o : Style} (h : Style.parse text = .ok o) : Buildable o
  | decode {v : Json} {o : Style} (h : Style.decode v = .ok o) : Buildable o
  | ofJson {v : Json} (hv : v.InOrder) {o : Style} (h : Style.ofJson v = .ok o) : Buildable o

/-- No style that can be built repeats a key. -/
theorem Buildable.distinctKeys {style : Style} (h : style.Buildable) : style.DistinctKeys := by
  induction h with
  | empty => trivial
  | set _ key _ ihstyle ihvalue => exact ihstyle.set key ihvalue
  | ofEntries _ ih => exact distinctKeys_empty.setAll ih
  | parse h =>
      obtain ⟨tree, -, -, hdecode⟩ := parse_eq_ok_iff.1 h
      exact distinctKeys_of_decode hdecode
  | decode h => exact distinctKeys_of_decode h
  | ofJson hv h => exact distinctKeys_of_decode (decode_of_ofJson hv.distinctKeys h)

end Style

/-- A value as it is written down: a text, an integer of magnitude below `10 ^ 15`, or pairs of keys
and values in which keys may be repeated. -/
inductive Draft where
  | text (s : String)
  | integer (n : Int) (small : n.natAbs < 10 ^ (15 : Nat))
  | pairs (members : List (String × Draft))

namespace Draft

mutual

/-- The JSON value that a draft is written as, with repeated keys and all. -/
def json : Draft → Json
  | .text s => .ofText s
  | .integer n _ => .ofInt n
  | .pairs members => .object (jsonMembers members)

/-- The members of the object that pairs are written as. -/
def jsonMembers : List (String × Draft) → List (String × Json)
  | [] => []
  | (key, draft) :: rest => (key, draft.json) :: jsonMembers rest

end

mutual

/-- The value that a draft stands for: pairs are set one after the other. -/
def value : Draft → Value
  | .text s => .scalar (.text s)
  | .integer n _ => .scalar (.number (.ofInt n))
  | .pairs members => .block (.ofEntries (entries members))

/-- The entries that pairs stand for. -/
def entries : List (String × Draft) → List (String × Value)
  | [] => []
  | (key, draft) :: rest => (key, draft.value) :: entries rest

end

open Json (ok_bind)

mutual

/-- What is written for a draft is decoded as its value. -/
theorem decodeValue_json : ∀ draft : Draft, Style.decodeValue draft.json = .ok draft.value
  | .text _ => rfl
  | .integer _ _ => rfl
  | .pairs members => by
      rw [json, value, Style.decodeValue_object_eq_ok_iff]
      exact ⟨_, decodeMembers_jsonMembers .empty members, rfl⟩

theorem decodeMembers_jsonMembers (style : Style) : ∀ members : List (String × Draft),
    Style.decodeMembers style (jsonMembers members) = .ok (style.setAll (entries members))
  | [] => rfl
  | (key, draft) :: rest => by
      rw [jsonMembers, Style.decodeMembers, decodeValue_json draft, ok_bind,
        decodeMembers_jsonMembers (style.set key draft.value) rest, entries, Style.setAll_cons]

end

theorem not_isNumberChar_of_mem_head?_renderMembers (members : List (String × Json))
    (r : List Char) :
    ∀ c ∈ (Json.renderMembers false members ++ r).head?, Number.isNumberChar c = false := by
  have hcomma : Number.isNumberChar ',' = false := by decide
  have hbrace : Number.isNumberChar '\x7d' = false := by decide
  cases members with
  | nil => simpa [Json.renderMembers] using hbrace
  | cons member members => simpa [Json.renderMembers] using hcomma

mutual

/-- The compact text of a draft has the lexemes of what is written, where nothing follows that could
be in a number. -/
theorem lex_render {r : List Char} (hr : ∀ c ∈ r.head?, Number.isNumberChar c = false) :
    ∀ draft : Draft, Json.lex (draft.json.render ++ r) = draft.json.lexemes ++ Json.lex r
  | .text s => by
      have hquote : (Draft.text s).json.render = Json.quote s.toList := rfl
      rw [hquote, Json.lex_quote, String.ofList_toList]
      rfl
  | .integer n small => Json.lex_signedDecimal small hr
  | .pairs members => by
      rw [json, Json.render, Json.lexemes, List.cons_append, List.cons_append,
        Json.lex_openObject, lex_renderMembers true r members]

theorem lex_renderMembers (first : Bool) (r : List Char) : ∀ members : List (String × Draft),
    Json.lex (Json.renderMembers first (jsonMembers members) ++ r) =
      Json.memberLexemes first (jsonMembers members) ++ Json.lex r
  | [] => Json.lex_closeObject r
  | (key, draft) :: rest => by
      have hcut : Json.renderMembers first (jsonMembers ((key, draft) :: rest)) ++ r =
          Style.entryText first key
            (draft.json.render ++ (Json.renderMembers false (jsonMembers rest) ++ r)) := by
        simp [jsonMembers, Json.renderMembers, Style.entryText]
      rw [hcut, Style.lex_entryText,
        lex_render (not_isNumberChar_of_mem_head?_renderMembers (jsonMembers rest) r) draft,
        lex_renderMembers false r rest]
      simp [jsonMembers, Json.memberLexemes]

end

end Draft

namespace Style

/-- No style that can be built repeats a key, at any depth.  Of entries that are set one after the
other, which is how a style is made of them, each key stays where it first came, with the value that
came last.  The same style is read from every JSON text with these entries as its members, if its
objects are nested at most 127 deep; the compact text is one. -/
theorem built_holds_keys_once :
    (∀ style : Style, style.Buildable → style.DistinctKeys) ∧
    (∀ es : List (String × Value),
      let style := ofEntries es
      es.foldl (fun grown entry => grown.set entry.1 entry.2) .empty = style ∧
        style.keys = (es.map Prod.fst).eraseDups ∧
        (∀ key, style.get? key = es.reverse.lookup key) ∧
        style.length = (es.map Prod.fst).toFinset.card) ∧
    ∀ pairs : List (String × Draft),
      let written := (Draft.pairs pairs).json
      Json.lex written.render = written.lexemes ∧
        (written.nesting ≤ 127 → ∀ text : String, Json.lex text.toList = written.lexemes →
          parse text = .ok (ofEntries (Draft.entries pairs))) := by
  refine ⟨fun _ => Buildable.distinctKeys, fun es => ?_,
    fun pairs => ⟨?_, fun hdepth text hlex => ?_⟩⟩
  · exact ⟨rfl, keys_ofEntries es, get?_ofEntries es, length_ofEntries es⟩
  · have hlex := Draft.lex_render (r := []) (by simp) (.pairs pairs)
    rwa [List.append_nil, Json.lex, List.append_nil] at hlex
  · exact parse_eq_ok_iff.2 ⟨_, hlex, hdepth, Draft.decodeMembers_jsonMembers .empty pairs⟩

/-- Keys repeated outside and inside of a block, read from a text with white space. -/
theorem built_holds_keys_once_read :
    let inner : Draft := .pairs [("c", .text "x"), ("d", .text ""), ("c", .text "y")]
    let pairs : List (String × Draft) :=
      [("a", .integer 1 (by decide)), ("b", inner), ("a", .integer (-2) (by decide))]
    let text := "\x7b\"a\":1, \"b\":\x7b\"c\":\"x\",\"d\":\"\",\"c\":\"y\"\x7d, \"a\":-2 \x7d"
    let style := Style.property "a" (.number (.ofInt (-2)))
      (.block "b" (.property "c" (.text "y") (.property "d" (.text "") .empty)) .empty)
    (Draft.pairs pairs).json.nesting = 2 ∧ parse text = .ok style ∧ style.Buildable ∧
      style.DistinctKeys ∧ style.keys = ["a", "b"] ∧ style.length = 2 := by
  intro inner pairs text style
  obtain ⟨hdistinct, hentries, hread⟩ := built_holds_keys_once
  have hnesting : (Draft.pairs pairs).json.nesting = 2 := by decide
  have hlex : Json.lex text.toList = (Draft.pairs pairs).json.lexemes := by decide +kernel
  have hstyle : ofEntries (Draft.entries pairs) = style := by decide +kernel
  have hparse : parse text = .ok style :=
    hstyle ▸ (hread pairs).2 (hnesting ▸ by decide) text hlex
  obtain ⟨-, hkeys, -, hlength⟩ := hentries (Draft.entries pairs)
  rw [hstyle] at hkeys hlength
  exact ⟨hnesting, hparse, .parse hparse, hdistinct style (.parse hparse),
    hkeys.trans (by decide), hlength.trans (by decide)⟩

end Style

end ScopedCss
