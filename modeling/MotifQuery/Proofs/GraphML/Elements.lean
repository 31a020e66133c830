import MotifQuery.Proofs.GraphML.Keys
import MotifQuery.Proofs.GraphML.Values
import MotifQuery.Proofs.Graph.Rebuild

/-!
# `MotifQuery.Proofs.GraphML.Elements`: nodes and edges read back

A mention of a vertex or of an edge is written as one element. The reader is `between` two
elements or `within` one, where it holds the mention as far as it has been read. An element
leads from one state between elements to the next, with the mention of the element's
settled attributes: `reads_element` for one, `reads_elements` for a row of them.
-/

set_option autoImplicit false

namespace MotifQuery

namespace Mention

/-- The attributes that a call gives. -/
def attributes : Mention → Attributes
  | .vertex _ attributes => attributes
  | .edge _ _ attributes => attributes

/-- The call with other attributes. -/
def withAttributes (attributes : Attributes) : Mention → Mention
  | .vertex id _ => .vertex id attributes
  | .edge source target _ => .edge source target attributes

end Mention

namespace GraphML

open Text

/-! ### Single tags -/

section
variable (s : State)

theorem enter_node (standing : Bool) (id : String) :
    s.enter standing "node" (some [("id", id)])
      = if standing then s.addVertex { id }
        else .ok { s with owner := .node, node := some { id } } := by
  have hname : localName "node" = "node" := rfl
  have hid : required [("id", id)] "node" "id" = .ok id := rfl
  rw [State.enter, hname, if_neg (by decide), if_neg (by decide), if_pos rfl, hid]
  rfl

theorem enter_edge (standing : Bool) (source target : String) :
    s.enter standing "edge" (some [("source", source), ("target", target)])
      = if standing then s.addEdge { source, target }
        else .ok { s with owner := .edge, edge := some { source, target } } := by
  have hname : localName "edge" = "edge" := rfl
  have hsource : required [("source", source), ("target", target)] "edge" "source"
      = .ok source := rfl
  have htarget : required [("source", source), ("target", target)] "edge" "target"
      = .ok target := rfl
  rw [State.enter, hname, if_neg (by decide), if_neg (by decide), if_neg (by decide), if_pos rfl,
    hsource, htarget]
  rfl

theorem enter_data (id : String) :
    s.enter false "data" (some [("key", id)]) = .ok { s with datum := some (id, []) } := by
  have hname : localName "data" = "data" := rfl
  rw [State.enter, hname, if_neg (by decide), if_neg (by decide), if_neg (by decide),
    if_neg (by decide), if_pos ⟨rfl, rfl⟩]
  rfl

theorem leave_data : s.leave "data" = .ok s.closeDatum := by
  have hname : localName "data" = "data" := rfl
  rw [State.leave, hname, if_pos rfl]

theorem leave_node {v : Vertex} (h : s.node = some v) :
    s.leave "node" = (do
      let s ← ({ s with node := none } : State).addVertex v
      pure { s with owner := .other }) := by
  have hname : localName "node" = "node" := rfl
  rw [State.leave, hname, if_neg (by decide), if_pos rfl, h]

theorem leave_edge {e : Edge} (h : s.edge = some e) :
    s.leave "edge" = (do
      let s ← ({ s with edge := none } : State).addEdge e
      pure { s with owner := .other }) := by
  have hname : localName "edge" = "edge" := rfl
  rw [State.leave, hname, if_neg (by decide), if_neg (by decide), if_pos rfl, h]

end

/-! ### Elements of mentions -/

/-- The name of the element of a mention. -/
def elementName : Mention → String
  | .vertex _ _ => "node"
  | .edge _ _ _ => "edge"

/-- The attributes of the tag of a mention. -/
def elementTag : Mention → List (String × String)
  | .vertex id _ => [("id", id)]
  | .edge source target _ => [("source", source), ("target", target)]

/-- Between two elements nothing is open. -/
def between (keys : Dict Key) (g : HostGraph) : State :=
  { keys := keys, graph := some g }

/-- Within an element the reader holds what it has read of it. -/
def within (keys : Dict Key) (g : HostGraph) : Mention → State
  | .vertex id attributes =>
    { between keys g with owner := .node, node := some { id, attributes } }
  | .edge source target attributes =>
    { between keys g with owner := .edge, edge := some { source, target, attributes } }

section
variable (keys : Dict Key) (g : HostGraph) (m : Mention)

theorem step_opening :
    (between keys g).step (.opening (elementName m) (some (elementTag m)))
      = .ok (within keys g (m.withAttributes ∅)) := by
  cases m with
  | vertex id attributes => exact enter_node (between keys g) false id
  | edge source target attributes => exact enter_edge (between keys g) false source target

/-- An element that stands alone is a mention without attributes. -/
theorem step_standing :
    (between keys g).step (.standing (elementName m) (some (elementTag m)))
      = .ok (between keys (g.mention (m.withAttributes ∅))) := by
  cases m with
  | vertex id attributes => exact enter_node (between keys g) true id
  | edge source target attributes => exact enter_edge (between keys g) true source target

theorem step_closing :
    (within keys g m).step (.closing (elementName m)) = .ok (between keys (g.mention m)) := by
  cases m with
  | vertex id attributes => exact leave_node (within keys g (.vertex id attributes)) rfl
  | edge source target attributes =>
    exact leave_edge (within keys g (.edge source target attributes)) rfl

theorem give_within (name : String) (value : Json) :
    (within keys g m).give name value
      = within keys g (m.withAttributes (m.attributes.insert name value)) := by
  cases m with
  | vertex id attributes => rfl
  | edge source target attributes => rfl

/-! ### Attributes -/

/-- Closing a `data` element gives its value to the element that is open. -/
theorem closeDatum_within {id : String} {key : Key} (h : keys.get? id = some key)
    (text : List Char) :
    ({ within keys g m with datum := some (id, text) } : State).closeDatum
      = (within keys g m).give key.name (typedValue text key.type) := by
  have hkeys : (within keys g m).keys = keys := by cases m <;> rfl
  have hdatum : ({ within keys g m with datum := none } : State) = within keys g m := by
    cases m <;> rfl
  unfold State.closeDatum
  dsimp only
  rw [hdatum, hkeys, h]

end

/-- A table and the keys that are declared turn a value of an attribute into the result. -/
def SettlesTo (keys : Dict Key) (table : List (String × String × String)) (name : String)
    (value result : Json) : Prop :=
  ∃ id type, table.lookup name = some (id, type) ∧ keys.get? id = some { name, type } ∧
    ∀ raw, trim raw = trim (valueText value).toList → typedValue raw type = result

section
variable {keys : Dict Key} {table : List (String × String × String)} {g : HostGraph} {m : Mention}

/-- The text of a value loses blanks around it, or is lost when it is blank. -/
theorem reads_content {id content : String} {s : State}
    (h : s.datum = some (id, [])) :
    Reads s [.text (some content)]
      { s with datum := some (id, Xml.stripped content.toList) } := by
  unfold Reads
  rw [List.flatMap_singleton, Xml.Event.readBack, Option.getD_some]
  -- a blank text gives no event at all, and then the datum stays empty
  cases hcs : Xml.stripped content.toList with
  | nil =>
    have hsame : ({ s with datum := some (id, []) } : State) = s := by
      rw [← h]
    rw [hsame]
    rfl
  | cons c cs =>
    rw [List.isEmpty_cons, if_neg Bool.false_ne_true, List.foldlM_cons, State.step, h,
      Option.isNone_some, if_neg Bool.false_ne_true, State.write, h, Option.map_some,
      String.toList_ofList]
    rfl

/-- A `data` element writes its value into the element that is open. -/
theorem reads_datum {entry : String × Json} {result : Json}
    (h : SettlesTo keys table entry.1 entry.2 result) :
    Reads (within keys g m) (datumEvents table entry)
      (within keys g (m.withAttributes (m.attributes.insert entry.1 result))) := by
  obtain ⟨id, type, hrow, hkey, hvalue⟩ := h
  let text := Xml.stripped (valueText entry.2).toList
  -- one event after the other: the tag, the text and the closing tag
  have hevents : datumEvents table entry
      = [.opening "data" (some [("key", id)])] ++ [.text (some (valueText entry.2))]
        ++ [.closing "data"] := by
    unfold datumEvents
    rw [hrow]
    rfl
  have hopening : Reads (within keys g m) [.opening "data" (some [("key", id)])]
      { within keys g m with datum := some (id, []) } :=
    reads_event rfl (enter_data (within keys g m) id)
  have hcontent : Reads { within keys g m with datum := some (id, []) }
      [.text (some (valueText entry.2))]
      { within keys g m with datum := some (id, text) } :=
    reads_content rfl
  have hclosing : Reads { within keys g m with datum := some (id, text) } [.closing "data"]
      (within keys g (m.withAttributes (m.attributes.insert entry.1 result))) := by
    refine reads_event rfl ?_
    rw [State.step, leave_data, closeDatum_within keys g m hkey, give_within,
      hvalue text (Xml.trim_stripped _)]
  rw [hevents]
  exact (hopening.append hcontent).append hclosing

/-- The attributes of an element are read one after the other. -/
theorem reads_attributes {f : String → Json → Json} {entries : List (String × Json)}
    (h : ∀ entry ∈ entries, SettlesTo keys table entry.1 entry.2 (f entry.1 entry.2)) :
    Reads (within keys g m) (entries.flatMap (datumEvents table))
      (within keys g (m.withAttributes
        ((entries.map fun entry => (entry.1, f entry.1 entry.2)).foldl
          (fun attributes entry => attributes.insert entry.1 entry.2) m.attributes))) := by
  induction entries generalizing m with
  | nil => cases m <;> exact Reads.nil _
  | cons entry rest ih =>
    have hfirst := reads_datum (g := g) (m := m) (h entry List.mem_cons_self)
    have hrest := ih (m := m.withAttributes (m.attributes.insert entry.1 (f entry.1 entry.2)))
      fun other hother => h other (List.mem_cons_of_mem entry hother)
    rw [List.flatMap_cons]
    refine hfirst.append ?_
    -- giving attributes twice is giving the second ones
    cases m <;> exact hrest

/-- An element leads the reader past it, with the mention of the settled attributes. -/
theorem reads_element {f : String → Json → Json}
    (h : ∀ name value, m.attributes.get? name = some value →
      SettlesTo keys table name value (f name value)) :
    Reads (between keys g) (elementEvents table (elementName m) (elementTag m) m.attributes)
      (between keys (g.mention (m.withAttributes (m.attributes.mapWithKey f)))) := by
  unfold elementEvents
  split
  · next hempty =>
    -- a tag that stands alone has no attributes to settle
    have hattributes : m.attributes.mapWithKey f = ∅ := by
      refine Dict.ext_get? fun name => ?_
      rw [Dict.get?_mapWithKey, Dict.get?_eq_none_of_isEmpty hempty]
      rfl
    rw [hattributes]
    exact reads_event rfl (step_standing keys g m)
  · have hopening : Reads (between keys g) [.opening (elementName m) (some (elementTag m))]
        (within keys g (m.withAttributes ∅)) :=
      reads_event rfl (step_opening keys g m)
    have hattributes : Reads (within keys g (m.withAttributes ∅))
        (m.attributes.entries.flatMap (datumEvents table))
        (within keys g (m.withAttributes (m.attributes.mapWithKey f))) := by
      have hread := reads_attributes (g := g) (m := m.withAttributes ∅)
        fun entry hentry => h entry.1 entry.2 (Dict.mem_entries_iff.1 hentry)
      rw [← Dict.ofList_entries (m.attributes.mapWithKey f)]
      cases m <;> exact hread
    have hclosing : Reads (within keys g (m.withAttributes (m.attributes.mapWithKey f)))
        [.closing (elementName m)]
        (between keys (g.mention (m.withAttributes (m.attributes.mapWithKey f)))) := by
      refine reads_event rfl ?_
      have hstep := step_closing keys g (m.withAttributes (m.attributes.mapWithKey f))
      cases m <;> exact hstep
    exact (hopening.append hattributes).append hclosing

/-- A row of elements leads the reader past it, mention by mention. -/
theorem reads_elements {settle : Mention → Mention} {events : Mention → List Xml.Event}
    {ms : List Mention}
    (h : ∀ m ∈ ms, ∀ g, Reads (between keys g) (events m) (between keys (g.mention (settle m)))) :
    Reads (between keys g) (ms.flatMap events)
      (between keys ((ms.map settle).foldl HostGraph.mention g)) := by
  induction ms generalizing g with
  | nil => exact Reads.nil _
  | cons m rest ih =>
    rw [List.flatMap_cons]
    refine (h m List.mem_cons_self g).append ?_
    exact ih fun m' hm' => h m' (List.mem_cons_of_mem m hm')

end

end GraphML

end MotifQuery
