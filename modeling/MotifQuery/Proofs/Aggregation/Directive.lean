import MotifQuery.Aggregation.Directive
import MotifQuery.Proofs.Json.Meaning
import MotifQuery.Proofs.Text.Split
import MotifQuery.Proofs.Text.Trim

/-!
# `MotifQuery.Proofs.Aggregation.Directive`: directives are read faithfully

The first bar of a directive parts the kind from its arguments, and blanks around either count
for nothing. So a kind and the arguments come back from any text that writes them, bars in the
keys and strings of the arguments included (`Directive.parse_of_object`), and where anything but
one JSON object stands behind the first bar the directive is refused
(`Directive.parse_of_not_object`). Nothing but a blank kind is taken for the identity
(`Aggregation.parse_eq_identity_iff`), and no kind but the documented ones is let through
(`Aggregation.ofDirective_unknown`). `Aggregation.parse_faithful` puts this together.
-/

set_option autoImplicit false

namespace MotifQuery

open Text Json

/-- The text is one JSON object, whatever it says, between blanks. -/
def ObjectText (cs : List Char) : Prop :=
  ∃ members before text after, Blank before ∧ DocumentText (.object members) text ∧
    Blank after ∧ cs = before ++ text ++ after

/-! ### Texts of objects -/

theorem blank_of_spaces {cs : List Char} (h : Spaces cs) : Blank cs := by
  intro c hc
  rcases isSpace_iff.1 (h c hc) with rfl | rfl | rfl | rfl <;> rfl

/-- Members end with the brace that closes their object. -/
theorem getLast?_of_membersText : {members : List (String × Document)} → {cs : List Char} →
    MembersText members cs → cs.getLast? = some '}'
  | _, _, .last .. => by simp [List.getLast?_cons]
  | _, _, .more _ _ _ _ _ _ hrest => by
    simp [List.getLast?_cons, getLast?_of_membersText hrest]

/-- A text of an object begins and ends with a brace. -/
theorem tight_objectText {members : List (String × Document)} {text : List Char}
    (h : DocumentText (.object members) text) : Tight text := by
  cases h with
  | @emptyObject blanks h => exact ⟨⟨_, _, rfl, rfl⟩, ⟨'{' :: blanks, '}', rfl, rfl⟩⟩
  | object h =>
    obtain ⟨front, rfl⟩ := List.getLast?_eq_some_iff.1 (getLast?_of_membersText h)
    exact ⟨⟨_, _, rfl, rfl⟩, ⟨'{' :: front, '}', rfl, rfl⟩⟩

theorem brace_mem_of_objectText {cs : List Char} (h : ObjectText cs) : '{' ∈ cs := by
  obtain ⟨members, before, text, after, -, htext, -, rfl⟩ := h
  cases htext <;> simp

/-- No number is a dictionary. -/
theorem asDict?_of_number {t : NumberText} {j : Json} (h : t.value? = some j) :
    j.asDict? = none := by
  have hdouble : t.double?.map Json.float = some j → j.asDict? = none := by
    intro h
    obtain ⟨x, -, rfl⟩ := Option.map_eq_some_iff.1 h
    rfl
  unfold NumberText.value? at h
  dsimp only at h
  split at h
  · split at h
    · split at h
      · obtain rfl := Option.some.inj h
        rfl
      · exact hdouble h
    · split at h
      · obtain rfl := Option.some.inj h
        rfl
      · exact hdouble h
  · exact hdouble h

/-- Only an object is read as a dictionary. -/
theorem exists_members_of_asDict? {doc : Document} {depth : Nat} {j : Json} {o : Dict Json}
    (h : doc.value? depth = some j) (hdict : j.asDict? = some o) :
    ∃ members, doc = .object members := by
  cases doc with
  | object members => exact ⟨members, rfl⟩
  | number t => exact nomatch (asDict?_of_number h).symm.trans hdict
  | null =>
    obtain rfl := Option.some.inj h
    cases hdict
  | bool b =>
    obtain rfl := Option.some.inj h
    cases hdict
  | string s =>
    obtain ⟨_, -, rfl⟩ := Option.map_eq_some_iff.1 h
    cases hdict
  | array items =>
    rw [Document.value?] at h
    split at h
    · cases h
    · obtain ⟨_, -, rfl⟩ := Option.map_eq_some_iff.1 h
      cases hdict

namespace Directive

variable {kind args : List Char}

/-- A directive without a bar is a kind. -/
theorem parse_of_no_bar {raw : String} (h : '|' ∉ raw.toList) :
    parse raw = .ok ⟨String.ofList (trim raw.toList), ∅⟩ := by
  rw [parse, splitOnce?_char_eq_none h]

/-- What stands behind the first bar is read as the arguments. -/
theorem parse_of_object (hkind : '|' ∉ kind) {o : Dict Json}
    (hargs : Json.parse? (trim args) = some (object o)) :
    parse (String.ofList (kind ++ '|' :: args)) = .ok ⟨String.ofList (trim kind), o⟩ := by
  rw [parse, String.toList_ofList, splitOnce?_char hkind]
  dsimp only
  rw [hargs]
  show Except.ok (Directive.mk _ (Dict.ofList o.entries)) = _
  rw [Dict.ofList_entries]

/-- Where no object stands behind the first bar, the directive is refused. -/
theorem parse_of_not_object (hkind : '|' ∉ kind) (hargs : ¬ ObjectText args) :
    ∃ f, parse (String.ofList (kind ++ '|' :: args)) = .error f ∧
      f.code = "invalid_aggregation" := by
  rw [parse, String.toList_ofList, splitOnce?_char hkind]
  dsimp only
  split
  · next value hvalue =>
    split
    · next o ho =>
      obtain ⟨doc, hdoc, hvalue⟩ := Option.bind_eq_some_iff.1 hvalue
      obtain ⟨members, rfl⟩ := exists_members_of_asDict? hvalue ho
      obtain ⟨before, text, after, hbefore, htext, hafter, htrim⟩ :=
        Document.parse?_eq_some_iff.1 hdoc
      obtain ⟨start, ending, hstart, hending, hcs⟩ := exists_trim args
      refine absurd ⟨members, start ++ before, text, after ++ ending,
        hstart.append (blank_of_spaces hbefore), htext, (blank_of_spaces hafter).append hending,
        ?_⟩ hargs
      rw [hcs, htrim]
      simp only [List.append_assoc]
    · exact ⟨_, rfl, rfl⟩
  · exact ⟨_, rfl, rfl⟩

end Directive

namespace Aggregation

/-- The kinds that a directive may name, the blank one among them. -/
def kinds : List String :=
  ["", "host.vertex", "motif.vertex", "motif.vertex.attribute", "sample"]

theorem byAttribute_ne_identity (args : Dict Json) : byAttribute args ≠ .ok .identity := by
  unfold byAttribute
  dsimp only
  split
  · split <;> exact nofun
  · exact nofun

theorem bySample_ne_identity (args : Dict Json) : bySample args ≠ .ok .identity := by
  unfold bySample
  dsimp only
  split
  · exact nofun
  · split <;> exact nofun
  · exact nofun

/-- Only the blank kind is the identity. -/
theorem ofDirective_eq_identity_iff {d : Directive} :
    ofDirective d = .ok .identity ↔ d.kind = "" := by
  unfold ofDirective
  split_ifs with hblank hhost hmotif hattribute hsample
  · exact iff_of_true rfl hblank
  · exact iff_of_false nofun hblank
  · exact iff_of_false nofun hblank
  · exact iff_of_false (byAttribute_ne_identity d.args) hblank
  · exact iff_of_false (bySample_ne_identity d.args) hblank
  · exact iff_of_false nofun hblank

/-- A kind that is not documented is refused. -/
theorem ofDirective_unknown {d : Directive} (h : d.kind ∉ kinds) :
    ∃ f, ofDirective d = .error f ∧ f.code = "invalid_aggregation" := by
  simp only [kinds, List.mem_cons, List.not_mem_nil, or_false, not_or] at h
  obtain ⟨hblank, hhost, hmotif, hattribute, hsample⟩ := h
  rw [ofDirective, if_neg hblank, if_neg hhost, if_neg hmotif, if_neg hattribute, if_neg hsample]
  exact ⟨_, rfl, rfl⟩

/-- A directive asks for no aggregation when it is read and its kind is blank. -/
theorem parse_some_eq_identity_iff {text : String} : parse (some text) = .ok .identity ↔
    ∃ d, Directive.parse text = .ok d ∧ d.kind = "" := by
  rw [parse]
  cases hparse : Directive.parse text with
  | error f =>
    refine iff_of_false nofun ?_
    rintro ⟨d, hd, -⟩
    cases hd
  | ok d =>
    refine ofDirective_eq_identity_iff.trans ⟨fun hkind => ⟨d, rfl, hkind⟩, ?_⟩
    rintro ⟨d', hd', hkind⟩
    rwa [Except.ok.inj hd']

/-- No aggregation is asked for when there is no directive or its kind is blank. -/
theorem parse_eq_identity_iff {raw : Option String} : parse raw = .ok .identity ↔
    raw = none ∨ ∃ text d, raw = some text ∧ Directive.parse text = .ok d ∧ d.kind = "" := by
  cases raw with
  | none => exact iff_of_true rfl (.inl rfl)
  | some text =>
    rw [parse_some_eq_identity_iff]
    constructor
    · rintro ⟨d, hd, hkind⟩
      exact .inr ⟨text, d, rfl, hd, hkind⟩
    · rintro (h | ⟨_, d, h, hd, hkind⟩)
      · cases h
      · obtain rfl := Option.some.inj h
        exact ⟨d, hd, hkind⟩

/-- Directives are read faithfully. Whatever text of an object stands behind a kind and a bar,
between any blanks, the directive is the trimmed kind with that object; among the texts is the
compact form of every object without doubles. A text without a bar is a kind alone, and where
anything but one object stands behind the first bar the directive is refused. The identity is
selected only without a directive or for a blank kind, and every kind that is not documented is
refused. -/
theorem parse_faithful :
    (∀ (kind : List Char) (o : Dict Json) (before text after : List Char), '|' ∉ kind →
        Blank before → Blank after → (object o).WrittenAs text → (object o).depth ≤ 100 →
        Directive.parse (String.ofList (kind ++ '|' :: (before ++ text ++ after)))
          = .ok ⟨String.ofList (trim kind), o⟩)
      ∧ (∀ o : Dict Json, (object o).Plain → (object o).WrittenAs (compactChars (object o)))
      ∧ (∀ raw : String, '|' ∉ raw.toList →
        Directive.parse raw = .ok ⟨String.ofList (trim raw.toList), ∅⟩)
      ∧ (∀ kind rest : List Char, '|' ∉ kind → ¬ ObjectText rest →
        ∃ f, Directive.parse (String.ofList (kind ++ '|' :: rest)) = .error f ∧
          f.code = "invalid_aggregation")
      ∧ (∀ raw : Option String, parse raw = .ok .identity ↔
        raw = none ∨ ∃ text d, raw = some text ∧ Directive.parse text = .ok d ∧ d.kind = "")
      ∧ ∀ (raw : String) (d : Directive), Directive.parse raw = .ok d → d.kind ∉ kinds →
        ∃ f, parse (some raw) = .error f ∧ f.code = "invalid_aggregation" := by
  refine ⟨fun kind o before text after hkind hbefore hafter htext hdepth => ?_,
    fun o ho => writtenAs_compact ho, fun raw hraw => Directive.parse_of_no_bar hraw,
    fun kind rest hkind hrest => Directive.parse_of_not_object hkind hrest,
    fun raw => parse_eq_identity_iff, fun raw d hparse hkind => ?_⟩
  · -- a text of an object has braces at its ends, so only the blanks around it are trimmed
    have htight : Tight text := by
      obtain ⟨doc, hdoc, hmeans⟩ := htext
      obtain ⟨members, rfl⟩ := exists_members_of_asDict? (hmeans.value? _ (Nat.lt_succ_self _)) rfl
      exact tight_objectText hdoc
    refine Directive.parse_of_object hkind ?_
    rw [htight.trim_append_eq hbefore hafter]
    exact parse?_of_writtenAs htext (by unfold depthLimit; omega)
  · obtain ⟨f, hf, hcode⟩ := ofDirective_unknown hkind
    refine ⟨f, ?_, hcode⟩
    rw [parse, hparse]
    exact hf

/-- Bars in a key and in a string belong to the arguments; a number behind the bar is refused,
and so is a kind without meaning. -/
theorem parse_faithful_of_bars :
    Directive.parse " sample |\t\x7b\"a|b\":\"x|y\",\"limit\":2\x7d\n"
        = .ok ⟨"sample", Dict.ofList [("a|b", .str "x|y"), ("limit", .int 2)]⟩
      ∧ Directive.parse " host.vertex" = .ok ⟨"host.vertex", ∅⟩
      ∧ (∃ f, Directive.parse "sample|3" = .error f ∧ f.code = "invalid_aggregation")
      ∧ ∃ f, parse (some "mystery|\x7b\x7d") = .error f ∧ f.code = "invalid_aggregation" := by
  obtain ⟨hfaithful, hcompact, hkindAlone, hrefused, -, hunknown⟩ := parse_faithful
  refine ⟨?_, ?_, ?_, ?_⟩
  · have hplain : (object (Dict.ofList [("a|b", .str "x|y"), ("limit", .int 2)])).Plain :=
      plain_ofFields (by simp [Plain])
    have hdepth : (object (Dict.ofList [("a|b", .str "x|y"), ("limit", .int 2)])).depth ≤ 100 :=
      (depth_ofFields_le (n := 0) (by simp [Json.depth])).trans (by decide)
    have hread := hfaithful [' ', 's', 'a', 'm', 'p', 'l', 'e', ' '] _ ['\t'] _ ['\n'] (by decide)
      (by simp [Blank, isBlank]) (by simp [Blank, isBlank]) (hcompact _ hplain) hdepth
    have htext : String.ofList ([' ', 's', 'a', 'm', 'p', 'l', 'e', ' '] ++ '|' :: (['\t']
        ++ compactChars (object (Dict.ofList [("a|b", .str "x|y"), ("limit", .int 2)])) ++ ['\n']))
        = " sample |\t\x7b\"a|b\":\"x|y\",\"limit\":2\x7d\n" := by decide +kernel
    have hkind : String.ofList (trim [' ', 's', 'a', 'm', 'p', 'l', 'e', ' ']) = "sample" := by
      decide +kernel
    rw [htext, hkind] at hread
    exact hread
  · have hkind : String.ofList (trim " host.vertex".toList) = "host.vertex" := by decide +kernel
    have hread := hkindAlone " host.vertex" (by decide +kernel)
    rw [hkind] at hread
    exact hread
  · have hbrace : ¬ ObjectText ['3'] := fun h => absurd (brace_mem_of_objectText h) (by decide)
    have herror := hrefused ['s', 'a', 'm', 'p', 'l', 'e'] ['3'] (by decide) hbrace
    have htext : String.ofList (['s', 'a', 'm', 'p', 'l', 'e'] ++ '|' :: ['3']) = "sample|3" := by
      decide +kernel
    rwa [htext] at herror
  · have hparse : Directive.parse "mystery|\x7b\x7d" = .ok ⟨"mystery", ∅⟩ := by decide +kernel
    exact hunknown _ _ hparse (by decide)

end Aggregation

end MotifQuery
