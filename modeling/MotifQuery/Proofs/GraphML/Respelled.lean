import MotifQuery.GraphML.Reader
import MotifQuery.Proofs.Except
import MotifQuery.Proofs.Xml.Respelled

/-!
# `MotifQuery.Proofs.GraphML.Respelled`: empty elements in a graph

The reader takes a tag that stands alone in one step and an opening and a closing tag in
two, and holds the element in between. It holds one node, one edge and one datum, so the
two steps do what the one does unless they let go of an element that was held before them
(`pair_node`, `pair_edge`), or close a datum, which gives its element an empty text that a
tag alone does not give.

What is held belongs to an element that is open (`State.Within`). So the spelling of an
empty element makes no difference where the elements around it rule these cases out
(`Indifferent`), and documents that are respelled there give one graph or one failure:
`read_respelled`.
-/

set_option autoImplicit false

namespace MotifQuery.GraphML

open Text

/-! ### What is open -/

/-- Is an element of the kind open? -/
def Open (around : List String) (kind : String) : Prop :=
  ∃ name ∈ around, localName name = kind

instance (around : List String) (kind : String) : Decidable (Open around kind) :=
  inferInstanceAs (Decidable (∃ name ∈ around, localName name = kind))

/-- Is an element open that data belong to? -/
def InElement (around : List String) : Prop :=
  Open around "node" ∨ Open around "edge"

instance (around : List String) : Decidable (InElement around) :=
  inferInstanceAs (Decidable (_ ∨ _))

section
variable {around : List String} {name kind : String}

theorem Open.cons (h : Open around kind) : Open (name :: around) kind := by
  obtain ⟨other, hother, hkind⟩ := h
  exact ⟨other, List.mem_cons_of_mem name hother, hkind⟩

theorem open_head (h : localName name = kind) : Open (name :: around) kind :=
  ⟨name, List.mem_cons_self, h⟩

theorem Open.of_cons (h : Open (name :: around) kind) (hne : localName name ≠ kind) :
    Open around kind := by
  obtain ⟨other, hother, hkind⟩ := h
  rcases List.mem_cons.1 hother with rfl | hother
  · exact absurd hkind hne
  · exact ⟨other, hother, hkind⟩

theorem InElement.cons (h : InElement around) : InElement (name :: around) :=
  h.imp Open.cons Open.cons

theorem InElement.of_cons (h : InElement (name :: around)) (hnode : localName name ≠ "node")
    (hedge : localName name ≠ "edge") : InElement around :=
  h.imp (Open.of_cons · hnode) (Open.of_cons · hedge)

end

/-- What the reader holds belongs to elements that are open. -/
structure State.Within (s : State) (around : List String) : Prop where
  owner : s.owner ≠ .other → InElement around
  node : s.node.isSome = true → Open around "node"
  edge : s.edge.isSome = true → Open around "edge"
  datum : s.datum.isSome = true → Open around "data"

/-- The part of a state that belongs to open elements. -/
def State.held (s : State) :
    Owner × Option Vertex × Option Edge × Option (String × List Char) :=
  (s.owner, s.node, s.edge, s.datum)

section
variable {s s' : State} {around around' : List String} {name : String}

theorem State.Within.cons (h : s.Within around) : s.Within (name :: around) where
  owner ho := (h.owner ho).cons
  node hn := (h.node hn).cons
  edge he := (h.edge he).cons
  datum hd := (h.datum hd).cons

theorem within_of_held {owner : Owner} {node : Option Vertex} {edge : Option Edge}
    {datum : Option (String × List Char)} (h : s.held = (owner, node, edge, datum))
    (howner : owner ≠ .other → InElement around) (hnode : node.isSome = true → Open around "node")
    (hedge : edge.isSome = true → Open around "edge")
    (hdatum : datum.isSome = true → Open around "data") : s.Within around := by
  cases h
  exact ⟨howner, hnode, hedge, hdatum⟩

theorem State.Within.of_held (h : s.Within around) (hs : s'.held = s.held) : s'.Within around :=
  within_of_held hs h.owner h.node h.edge h.datum

/-! ### What a tag does -/

theorem State.held_of_addVertex {v : Vertex} (h : s.addVertex v = .ok s') :
    s'.held = s.held := by
  obtain ⟨g, -, hs⟩ := bind_eq_ok_iff.1 h
  cases hs
  rfl

theorem State.held_of_addEdge {e : Edge} (h : s.addEdge e = .ok s') : s'.held = s.held := by
  obtain ⟨g, -, hs⟩ := bind_eq_ok_iff.1 h
  cases hs
  rfl

/-- A tag changes what is held only when it opens a node, an edge or a datum. -/
theorem State.enter_cases {standing : Bool} {attributes : Xml.AttributeList}
    (h : s.enter standing name attributes = .ok s') :
    s'.held = s.held ∨ standing = false ∧
      ((∃ v, localName name = "node" ∧ s'.held = (.node, some v, s.edge, s.datum)) ∨
       (∃ e, localName name = "edge" ∧ s'.held = (.edge, s.node, some e, s.datum)) ∨
       (∃ d, localName name = "data" ∧ s'.held = (s.owner, s.node, s.edge, d))) := by
  -- one case for each kind of element that the reader knows
  cases attributes with
  | none => cases h
  | some attributes =>
    rw [State.enter] at h
    split at h
    · -- a key
      cases h
      left
      unfold State.declare
      split <;> rfl
    split at h
    · -- a graph
      cases h
      left
      unfold State.openGraph
      split <;> rfl
    split at h
    · next hname =>
      obtain ⟨id, -, h⟩ := bind_eq_ok_iff.1 h
      cases standing with
      | true => exact .inl (held_of_addVertex h)
      | false =>
        cases h
        exact .inr ⟨rfl, .inl ⟨_, hname, rfl⟩⟩
    split at h
    · next hname =>
      obtain ⟨source, -, h⟩ := bind_eq_ok_iff.1 h
      obtain ⟨target, -, h⟩ := bind_eq_ok_iff.1 h
      cases standing with
      | true => exact .inl (held_of_addEdge h)
      | false =>
        cases h
        exact .inr ⟨rfl, .inr (.inl ⟨_, hname, rfl⟩)⟩
    split at h
    · next hname =>
      cases h
      exact .inr ⟨by simpa using hname.2, .inr (.inr ⟨_, hname.1, rfl⟩)⟩
    · cases h
      exact .inl rfl

theorem State.give_held (name : String) (value : Json) :
    (s.give name value).owner = s.owner ∧
      (s.give name value).node.isSome = s.node.isSome ∧
      (s.give name value).edge.isSome = s.edge.isSome ∧
      (s.give name value).datum = s.datum := by
  unfold State.give
  split <;> simp

/-- Closing a datum lets go of nothing else. -/
theorem State.closeDatum_held :
    s.closeDatum.owner = s.owner ∧ s.closeDatum.node.isSome = s.node.isSome ∧
      s.closeDatum.edge.isSome = s.edge.isSome ∧ s.closeDatum.datum = none := by
  unfold State.closeDatum
  split
  · next hdatum => exact ⟨rfl, rfl, rfl, hdatum⟩
  · dsimp only
    split <;> exact State.give_held _ _

/-- A closing tag lets go of the element that it closes. -/
theorem State.leave_cases (h : s.leave name = .ok s') :
    localName name = "data" ∧ s' = s.closeDatum ∨
      localName name = "node" ∧ s'.held = (.other, none, s.edge, s.datum) ∨
      localName name = "edge" ∧ s'.held = (.other, s.node, none, s.datum) ∨
      (localName name ≠ "data" ∧ localName name ≠ "node" ∧ localName name ≠ "edge") ∧ s' = s := by
  unfold State.leave at h
  dsimp only at h
  -- the names are asked in this order, and the vertex or edge is added only where one is held
  by_cases hdata : localName name = "data"
  · rw [if_pos hdata] at h
    cases h
    exact .inl ⟨hdata, rfl⟩
  by_cases hnode : localName name = "node"
  · rw [if_neg hdata, if_pos hnode] at h
    refine .inr (.inl ⟨hnode, ?_⟩)
    split at h
    · obtain ⟨t, ht, h⟩ := bind_eq_ok_iff.1 h
      have hheld := State.held_of_addVertex ht
      cases h
      simp only [State.held, Prod.mk.injEq] at hheld ⊢
      exact ⟨trivial, hheld.2⟩
    · next hnone =>
      cases h
      simp only [State.held, hnone]
  by_cases hedge : localName name = "edge"
  · rw [if_neg hdata, if_neg hnode, if_pos hedge] at h
    refine .inr (.inr (.inl ⟨hedge, ?_⟩))
    split at h
    · obtain ⟨t, ht, h⟩ := bind_eq_ok_iff.1 h
      have hheld := State.held_of_addEdge ht
      cases h
      simp only [State.held, Prod.mk.injEq] at hheld ⊢
      exact ⟨trivial, hheld.2⟩
    · next hnone =>
      cases h
      simp only [State.held, hnone]
  rw [if_neg hdata, if_neg hnode, if_neg hedge] at h
  cases h
  exact .inr (.inr (.inr ⟨⟨hdata, hnode, hedge⟩, rfl⟩))

/-! ### Steps within open elements -/

theorem State.Within.enter {attributes : Xml.AttributeList} (h : s.Within around)
    (hs : s.enter false name attributes = .ok s') : s'.Within (name :: around) := by
  have hcons : s.Within (name :: around) := h.cons
  rcases State.enter_cases hs with
    hheld | ⟨-, ⟨v, hname, hheld⟩ | ⟨e, hname, hheld⟩ | ⟨d, hname, hheld⟩⟩
  · exact hcons.of_held hheld
  · exact within_of_held hheld (fun _ => .inl (open_head hname)) (fun _ => open_head hname)
      hcons.edge hcons.datum
  · exact within_of_held hheld (fun _ => .inr (open_head hname)) hcons.node
      (fun _ => open_head hname) hcons.datum
  · exact within_of_held hheld hcons.owner hcons.node hcons.edge fun _ => open_head hname

theorem State.held_of_standing {attributes : Xml.AttributeList}
    (h : s.enter true name attributes = .ok s') : s'.held = s.held := by
  rcases State.enter_cases h with hheld | ⟨htrue, -⟩
  · exact hheld
  · cases htrue

theorem State.Within.leave (h : s.Within (name :: around)) (hs : s.leave name = .ok s') :
    s'.Within around := by
  rcases State.leave_cases hs with
    ⟨hname, rfl⟩ | ⟨hname, hheld⟩ | ⟨hname, hheld⟩ | ⟨⟨hdata, hnode, hedge⟩, rfl⟩
  · -- a datum is held no more, and the rest belongs to other elements
    have hne : localName name ≠ "node" ∧ localName name ≠ "edge" := by
      rw [hname]
      decide
    obtain ⟨howner, hnode, hedge, hdatum⟩ := State.closeDatum_held (s := s)
    refine ⟨fun ho => (h.owner (howner ▸ ho)).of_cons hne.1 hne.2,
      fun hn => (h.node (hnode ▸ hn)).of_cons hne.1,
      fun he => (h.edge (hedge ▸ he)).of_cons hne.2, fun hd => ?_⟩
    rw [hdatum] at hd
    cases hd
  · -- another node may still be open, but none is held
    have hne : localName name ≠ "edge" ∧ localName name ≠ "data" := by
      rw [hname]
      decide
    exact within_of_held hheld (absurd rfl) (fun hn => by cases hn)
      (fun he => (h.edge he).of_cons hne.1) fun hd => (h.datum hd).of_cons hne.2
  -- likewise for edges
  · have hne : localName name ≠ "node" ∧ localName name ≠ "data" := by
      rw [hname]
      decide
    exact within_of_held hheld (absurd rfl) (fun hn => (h.node hn).of_cons hne.1)
      (fun he => by cases he) fun hd => (h.datum hd).of_cons hne.2
  -- the closing tag of any other element
  · exact ⟨fun ho => (h.owner ho).of_cons hnode hedge, fun hn => (h.node hn).of_cons hnode,
      fun he => (h.edge he).of_cons hedge, fun hd => (h.datum hd).of_cons hdata⟩

theorem State.Within.write (h : s.Within around) (cs : List Char) : (s.write cs).Within around :=
  ⟨h.owner, h.node, h.edge, fun hd => h.datum (by simpa [State.write] using hd)⟩

/-- One step of the reader holds what belongs to elements that are open after it. -/
theorem State.Within.step {e : Xml.Event} (h : s.Within around) (he : e.Leads around around')
    (hs : s.step e = .ok s') : s'.Within around' := by
  -- only an opening and a closing tag change what is open
  cases he with
  | opening => exact h.enter hs
  | closing => exact h.leave hs
  | flat hflat =>
    cases e with
    | opening name attributes => cases hflat
    | closing name => cases hflat
    | standing name attributes => exact h.of_held (State.held_of_standing hs)
    | text content =>
      unfold State.step at hs
      dsimp only at hs
      split at hs
      · cases hs
        exact h
      · split at hs
        · cases hs
          exact h.write _
        · cases hs
    | data content =>
      cases hs
      exact h.write _
    | declaration =>
      cases hs
      exact h
    | remark =>
      cases hs
      exact h

/-! ### One tag or two -/

/-- What an opening tag does together with the closing tag right after it. -/
def State.pair (s : State) (name : String) (attributes : Xml.AttributeList) :
    Except Fault State :=
  s.enter false name attributes >>= fun t => t.leave name

section
variable {attributes : Xml.AttributeList}

/-- A node in two tags takes the place of what was held before it. -/
theorem pair_node (s : State) (h : localName name = "node") :
    s.pair name attributes
      = (s.enter true name attributes).map fun t => { t with owner := .other, node := none } := by
  have hleave : ∀ v, ({ s with owner := .node, node := some v } : State).leave name
      = (s.addVertex v).map fun t => { t with owner := .other, node := none } := by
    intro v
    unfold State.leave State.addVertex State.target
    dsimp only
    rw [h, if_neg (by decide), if_pos rfl]
    cases s.graph <;> rfl
  cases attributes with
  | none => rfl
  | some attributes =>
    unfold State.pair State.enter
    dsimp only
    rw [h, if_neg (by decide), if_neg (by decide), if_pos rfl, if_neg (by decide),
      if_neg (by decide), if_pos rfl]
    cases required attributes "node" "id" with
    | error fault => rfl
    | ok id => exact hleave { id }

/-- An edge in two tags takes the place of what was held before it. -/
theorem pair_edge (s : State) (h : localName name = "edge") :
    s.pair name attributes
      = (s.enter true name attributes).map fun t => { t with owner := .other, edge := none } := by
  have hleave : ∀ e, ({ s with owner := .edge, edge := some e } : State).leave name
      = (s.addEdge e).map fun t => { t with owner := .other, edge := none } := by
    intro e
    unfold State.leave State.addEdge State.target
    dsimp only
    rw [h, if_neg (by decide), if_neg (by decide), if_pos rfl]
    cases s.graph <;> rfl
  cases attributes with
  | none => rfl
  | some attributes =>
    unfold State.pair State.enter
    dsimp only
    rw [h, if_neg (by decide), if_neg (by decide), if_neg (by decide), if_pos rfl,
      if_neg (by decide), if_neg (by decide), if_neg (by decide), if_pos rfl]
    cases required attributes "edge" "source" with
    | error fault => rfl
    | ok source =>
      cases required attributes "edge" "target" with
      | error fault => rfl
      | ok target => exact hleave { source, target }

/-- A datum in two tags gives its element an empty text; in one tag it is nothing. -/
theorem pair_data (s : State) (h : localName name = "data") (attributes : List (String × String)) :
    s.pair name (some attributes)
        = .ok (State.closeDatum
            { s with datum := (attr? attributes "key").map fun key => (key, []) }) ∧
      s.enter true name (some attributes) = .ok s := by
  unfold State.pair State.enter State.leave
  dsimp only
  rw [h]
  exact ⟨rfl, rfl⟩

/-- The closing tag of any other element does nothing. -/
theorem pair_other (s : State) (hnode : localName name ≠ "node") (hedge : localName name ≠ "edge")
    (hdata : localName name ≠ "data") : s.pair name attributes = s.enter true name attributes := by
  have hleave : ∀ t : State, t.leave name = .ok t := by
    intro t
    unfold State.leave
    dsimp only
    rw [if_neg hdata, if_neg hnode, if_neg hedge]
  have henter : s.enter false name attributes = s.enter true name attributes := by
    cases attributes with
    | none => rfl
    | some attributes => simp only [State.enter, hnode, hedge, hdata, false_and, if_false]
  rw [State.pair, henter]
  cases s.enter true name attributes with
  | error fault => rfl
  | ok t => exact hleave t

end

/-! ### Where the spelling makes no difference -/

/-- Nodes and edges stand in no node and no edge; data stand in no other datum and, unless they
have no key, in no node and no edge. -/
structure Indifferent (around : List String) (name : String) (attributes : Xml.AttributeList) :
    Prop where
  element : localName name = "node" ∨ localName name = "edge" → ¬ InElement around
  datum : localName name = "data" → ¬ Open around "data"
  keyed : localName name = "data" → ∀ as, attributes = some as → attr? as "key" ≠ none →
    ¬ InElement around

theorem State.Within.outside (h : s.Within around) (hout : ¬ InElement around) :
    s.owner = .other ∧ s.node = none ∧ s.edge = none := by
  refine ⟨by_contra fun ho => hout (h.owner ho), ?_, ?_⟩
  · exact Option.not_isSome_iff_eq_none.1 fun hn => hout (.inl (h.node hn))
  · exact Option.not_isSome_iff_eq_none.1 fun he => hout (.inr (h.edge he))

/-- Closing an empty datum that no element takes gives back the state before it. -/
theorem closeDatum_empty {key : Option String} (hdatum : s.datum = none)
    (howner : key ≠ none → s.owner = .other) :
    State.closeDatum { s with datum := key.map fun key => (key, []) } = s := by
  have hnone : ({ s with datum := none } : State) = s := by rw [← hdatum]
  cases key with
  | none => exact hnone
  | some key =>
    have hgive : ∀ name value, s.give name value = s := by
      intro name value
      rw [State.give, howner (Option.some_ne_none key)]
    unfold State.closeDatum
    dsimp only [Option.map_some]
    rw [hnone]
    split <;> exact hgive _ _

theorem pair_of_indifferent {attributes : Xml.AttributeList} (h : s.Within around)
    (hind : Indifferent around name attributes) :
    s.pair name attributes = s.enter true name attributes := by
  by_cases hnode : localName name = "node"
  · rw [pair_node s hnode]
    cases hs : s.enter true name attributes with
    | error fault => rfl
    | ok t =>
      obtain ⟨howner, hnone, -⟩ := (h.of_held (State.held_of_standing hs)).outside
        (hind.element (.inl hnode))
      -- nothing was held that the node could take the place of
      show Except.ok { t with owner := .other, node := none } = Except.ok t
      rw [← howner, ← hnone]
  by_cases hedge : localName name = "edge"
  · rw [pair_edge s hedge]
    cases hs : s.enter true name attributes with
    | error fault => rfl
    | ok t =>
      obtain ⟨howner, -, hnone⟩ := (h.of_held (State.held_of_standing hs)).outside
        (hind.element (.inr hedge))
      show Except.ok { t with owner := .other, edge := none } = Except.ok t
      rw [← howner, ← hnone]
  by_cases hdata : localName name = "data"
  · cases attributes with
    | none => rfl
    | some attributes =>
      obtain ⟨hpair, hstanding⟩ := pair_data s hdata attributes
      have hdatum : s.datum = none :=
        Option.not_isSome_iff_eq_none.1 fun hd => hind.datum hdata (h.datum hd)
      rw [hpair, hstanding, closeDatum_empty hdatum fun hkey =>
        (h.outside (hind.keyed hdata attributes rfl hkey)).1]
  · exact pair_other s hnode hedge hdata

/-- In either spelling an indifferent element leads to the same state or the same fault. -/
theorem foldlM_empty {attributes : Xml.AttributeList} (h : s.Within around)
    (hind : Indifferent around name attributes) {spelling : List Xml.Event}
    (hs : spelling ∈ Xml.emptyEvents name attributes) :
    spelling.foldlM State.step s = s.step (.standing name attributes) := by
  rw [Xml.emptyEvents, List.mem_cons, List.mem_singleton] at hs
  rcases hs with rfl | rfl
  · rw [List.foldlM_cons]
    exact bind_pure _
  · have hpair : [Xml.Event.opening name attributes, .closing name].foldlM State.step s
        = s.pair name attributes := by
      rw [List.foldlM_cons, State.pair]
      exact congrArg _ (funext fun t => bind_pure _)
    rw [hpair, pair_of_indifferent h hind]
    rfl

/-- Rows of events that differ only in the spelling of indifferent elements lead to the same
state or the same fault. -/
theorem foldlM_of_sameElements {es es' : List Xml.Event}
    (hes : Xml.SameElements Indifferent around es es') (h : s.Within around) :
    es.foldlM State.step s = es'.foldlM State.step s := by
  -- the state stays within the open elements, so the condition of the next element applies
  induction hes generalizing s with
  | same around es => rfl
  | @event around around' e es es' he hes ih =>
    rw [List.foldlM_cons, List.foldlM_cons]
    cases hs : s.step e with
    | error fault => rfl
    | ok t => exact ih (h.step he hs)
  | @empty around name attributes spelling spelling' es es' hind hs hs' hes ih =>
    rw [List.foldlM_append, List.foldlM_append, foldlM_empty h hind hs, foldlM_empty h hind hs']
    cases hs : s.step (.standing name attributes) with
    | error fault => rfl
    | ok t => exact ih (h.step (.flat rfl) hs)

end

theorem ofEvents_of_same {r r' : Xml.Reading} (h : Xml.Reading.Same Indifferent [] r r') :
    ofEvents r = ofEvents r' := by
  have hempty : State.Within {} [] :=
    ⟨absurd rfl, fun hn => (by cases hn), fun he => (by cases he), fun hd => (by cases hd)⟩
  rw [ofEvents, ofEvents, foldlM_of_sameElements h.events hempty, h.malformed]

/-- A document gives one graph or one failure however its indifferent empty elements are
spelled. -/
theorem read_respelled (broken : Bool) {doc doc' : Bytes}
    (h : Xml.Respelled Indifferent [] doc doc') : read broken doc = read broken doc' := by
  rw [read, read, ofEvents_of_same h.readEvents]

theorem read_respelled_of_node :
    Xml.Respelled Indifferent [] (bytesOf "<graph><node id=\"a\"/></graph>")
        (bytesOf "<graph><node id=\"a\"></node></graph>") ∧
      read false (bytesOf "<graph><node id=\"a\"/></graph>")
        = read false (bytesOf "<graph><node id=\"a\"></node></graph>") := by
  have hgraph : Xml.WrittenTag "graph" [] := ⟨by decide, by decide, by decide⟩
  have hnode : Xml.WrittenTag "node" [("id", "a")] := ⟨by decide, by decide, by decide⟩
  have hind : Indifferent ["graph"] "node" (some [("id", "a")]) :=
    ⟨fun _ => by decide, by decide, fun h => absurd h (by decide)⟩
  have hrespelled : Xml.Respelled Indifferent []
      (bytesOf "<graph><node id=\"a\"/></graph>")
      (bytesOf "<graph><node id=\"a\"></node></graph>") :=
    .opening hgraph (.standing hnode hind (.same _ (bytesOf "</graph>")))
  exact ⟨hrespelled, read_respelled false hrespelled⟩

/-- A datum that stands alone gives its node nothing, and one in two tags an empty text. -/
theorem not_forall_read_respelled :
    ¬ ∀ doc doc', Xml.Respelled (fun _ _ _ => True) [] doc doc' →
      read false doc = read false doc' := by
  intro h
  have hgraph : Xml.WrittenTag "graph" [] := ⟨by decide, by decide, by decide⟩
  have hnode : Xml.WrittenTag "node" [("id", "a")] := ⟨by decide, by decide, by decide⟩
  have hdata : Xml.WrittenTag "data" [("key", "k")] := ⟨by decide, by decide, by decide⟩
  have hread := h (bytesOf "<graph><node id=\"a\"><data key=\"k\"/></node></graph>")
    (bytesOf "<graph><node id=\"a\"><data key=\"k\"></data></node></graph>")
    (.opening hgraph (.opening hnode (.standing hdata trivial
      (.same _ (bytesOf "</node></graph>")))))
  have hvertices := congrArg (fun r => r.toOption.map HostGraph.vertices) hread
  exact absurd hvertices (by decide +kernel)

end MotifQuery.GraphML
