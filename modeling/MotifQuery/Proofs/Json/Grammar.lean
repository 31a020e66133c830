import MotifQuery.Json.Document

/-!
# `MotifQuery.Proofs.Json.Grammar`: the texts of JSON documents

JSON as a relation between documents and the texts that write them. A text of a document
begins and ends with the document; blanks around it belong to what it stands in. The texts
of items and of members end with the bracket or brace that closes them, since that is how far
one reading goes.
-/

set_option autoImplicit false

namespace MotifQuery.Json

open Text Number

/-- Blanks between tokens. -/
def Spaces (cs : List Char) : Prop :=
  ∀ c ∈ cs, isSpace c = true

/-! ### Numbers -/

/-- Digits, at least one. -/
def Digits (cs : List Char) : Prop :=
  cs ≠ [] ∧ ∀ c ∈ cs, isAsciiDigit c = true

/-- The digits before the point; no zero stands before another. -/
def WholeText (cs : List Char) : Prop :=
  Digits cs ∧ (cs.head? = some '0' → cs.length = 1)

/-- The texts of a fraction. -/
inductive FractionText : List Char → List Char → Prop where
  | absent : FractionText [] []
  | present {digits : List Char} (h : Digits digits) : FractionText digits ('.' :: digits)

/-- The signs of a power of ten. -/
inductive PowerSign : Bool → List Char → Prop where
  | bare : PowerSign false []
  | plus : PowerSign false ['+']
  | minus : PowerSign true ['-']

/-- The texts of a power of ten. -/
inductive PowerText : Option (Bool × List Char) → List Char → Prop where
  | absent : PowerText none []
  | present {letter : Char} {negative : Bool} {sign digits : List Char}
      (hletter : letter = 'e' ∨ letter = 'E') (hsign : PowerSign negative sign)
      (h : Digits digits) : PowerText (some (negative, digits)) (letter :: (sign ++ digits))

/-- The texts of a number after its sign. -/
inductive MagnitudeText (t : NumberText) : List Char → Prop where
  | intro {fraction power : List Char} (hwhole : WholeText t.whole)
      (hfraction : FractionText t.fraction fraction) (hpower : PowerText t.exponent power) :
      MagnitudeText t (t.whole ++ (fraction ++ power))

/-! ### Strings -/

/-- The texts of the parts of a string, up to the quote that closes it. -/
inductive PartsText : List StringPart → List Char → Prop where
  | close : PartsText [] ['"']
  | unit {a b c d : Char} {n : Nat} {parts : List StringPart} {cs : List Char}
      (h : readHex? [a, b, c, d] = some n) (hrest : PartsText parts cs) :
      PartsText (.unit n :: parts) ('\\' :: 'u' :: a :: b :: c :: d :: cs)
  | escaped {letter c : Char} {parts : List StringPart} {cs : List Char}
      (h : escapedChar? letter = some c) (hrest : PartsText parts cs) :
      PartsText (.char c :: parts) ('\\' :: letter :: cs)
  | plain {c : Char} {parts : List StringPart} {cs : List Char} (hquote : c ≠ '"')
      (hescape : c ≠ '\\') (hcontrol : ¬ c.toNat < 32) (hrest : PartsText parts cs) :
      PartsText (.char c :: parts) (c :: cs)

/-- The texts of a string after its opening quote. -/
inductive StringText : Option String → List Char → Prop where
  | intro {parts : List StringPart} {cs : List Char} (h : PartsText parts cs) :
      StringText ((joinParts parts).map String.ofList) cs

/-! ### Documents -/

mutual

/-- The texts of a document. -/
inductive DocumentText : Document → List Char → Prop where
  | null : DocumentText .null ['n', 'u', 'l', 'l']
  | yes : DocumentText (.bool true) ['t', 'r', 'u', 'e']
  | no : DocumentText (.bool false) ['f', 'a', 'l', 's', 'e']
  | negative {t : NumberText} {cs : List Char} (hsign : t.negative = true)
      (h : MagnitudeText t cs) : DocumentText (.number t) ('-' :: cs)
  | unsigned {t : NumberText} {cs : List Char} (hsign : t.negative = false)
      (h : MagnitudeText t cs) : DocumentText (.number t) cs
  | string {s : Option String} {cs : List Char} (h : StringText s cs) :
      DocumentText (.string s) ('"' :: cs)
  | emptyArray {blanks : List Char} (h : Spaces blanks) :
      DocumentText (.array []) ('[' :: (blanks ++ [']']))
  | array {items : List Document} {cs : List Char} (h : ItemsText items cs) :
      DocumentText (.array items) ('[' :: cs)
  | emptyObject {blanks : List Char} (h : Spaces blanks) :
      DocumentText (.object []) ('{' :: (blanks ++ ['}']))
  | object {members : List (String × Document)} {cs : List Char} (h : MembersText members cs) :
      DocumentText (.object members) ('{' :: cs)

/-- The texts of items, up to the bracket that closes their array. -/
inductive ItemsText : List Document → List Char → Prop where
  | last {item : Document} {before text after : List Char} (hbefore : Spaces before)
      (h : DocumentText item text) (hafter : Spaces after) :
      ItemsText [item] (before ++ (text ++ (after ++ [']'])))
  | more {item : Document} {items : List Document} {before text after rest : List Char}
      (hbefore : Spaces before) (h : DocumentText item text) (hafter : Spaces after)
      (hrest : ItemsText items rest) :
      ItemsText (item :: items) (before ++ (text ++ (after ++ ',' :: rest)))

/-- The texts of members, up to the brace that closes their object. -/
inductive MembersText : List (String × Document) → List Char → Prop where
  | last {key : String} {value : Document} {start name between before text after : List Char}
      (hstart : Spaces start) (hkey : StringText (some key) name) (hbetween : Spaces between)
      (hbefore : Spaces before) (h : DocumentText value text) (hafter : Spaces after) :
      MembersText [(key, value)]
        (start ++ '"' :: (name ++ (between ++ ':' :: (before ++ (text ++ (after ++ ['}']))))))
  | more {key : String} {value : Document} {members : List (String × Document)}
      {start name between before text after rest : List Char}
      (hstart : Spaces start) (hkey : StringText (some key) name) (hbetween : Spaces between)
      (hbefore : Spaces before) (h : DocumentText value text) (hafter : Spaces after)
      (hrest : MembersText members rest) :
      MembersText ((key, value) :: members)
        (start ++ '"' :: (name ++ (between ++ ':' :: (before ++ (text ++ (after ++ ',' :: rest))))))

end

/-- What may stand after a number: nothing that would go on with it. -/
def EndsNumber (rest : List Char) : Prop :=
  ∀ c ∈ rest.head?, isAsciiDigit c = false ∧ c ≠ '.' ∧ c ≠ 'e' ∧ c ≠ 'E'

end MotifQuery.Json
