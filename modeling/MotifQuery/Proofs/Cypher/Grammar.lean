import MotifQuery.Cypher.Query
import MotifQuery.Proofs.Cypher.Layout
import MotifQuery.Proofs.Number.Integer

/-!
# `MotifQuery.Proofs.Cypher.Grammar`: the texts of queries

The language as relations between what is meant and the tokens that write it. Keywords are
words in any case; a relationship may carry a name, which means nothing; whole numbers may
have leading zeros; a comparison with a negative number may have its `<` directly before
the minus sign, and the two are one token then. `QueryText` relates a query to the texts that
write it in any layout.
-/

set_option autoImplicit false

namespace MotifQuery.Cypher

open Text Number

/-! ### Queries -/

/-- What a query returns. -/
inductive Returned where
  | everything
  | listed (names : List String)
deriving DecidableEq

/-- A query as it is meant. -/
structure QueryPattern where
  paths : List PathPattern
  conditions : List Condition
  returned : Returned
  limit : Option Nat
deriving DecidableEq

namespace QueryPattern

/-- The nodes of all paths in order. -/
def nodes (q : QueryPattern) : List NodePattern :=
  q.paths.flatMap PathPattern.nodes

/-- The variables of the nodes in the order of first appearance. -/
def variableNames (q : QueryPattern) : List String :=
  (q.nodes.map NodePattern.variableName).eraseDups

/-- Every path has a relationship, and conditions and returned variables are those of
nodes. -/
structure Valid (q : QueryPattern) : Prop where
  steps_ne_nil : ∀ p ∈ q.paths, p.steps ≠ []
  conditions_known : ∀ c ∈ q.conditions, c.variableName ∈ q.variableNames
  returned_known : ∀ names, q.returned = .listed names → ∀ x ∈ names, x ∈ q.variableNames

end QueryPattern

/-! ### Tokens -/

/-- The words that write a keyword. -/
inductive KeywordToken (keyword : String) : Token → Prop where
  | word {text : String} (h : sameLetters text.toList keyword.toList = true) :
      KeywordToken keyword (.word text)

/-- Items with a separator between them, at least one. -/
inductive Separated {α : Type} (Item : α → List Token → Prop) (IsSeparator : Token → Prop) :
    List α → List Token → Prop where
  | last {x : α} {ts : List Token} (h : Item x ts) : Separated Item IsSeparator [x] ts
  | more {x : α} {xs : List α} {ts rest : List Token} {sep : Token} (h : Item x ts)
      (hsep : IsSeparator sep) (hrest : Separated Item IsSeparator xs rest) :
      Separated Item IsSeparator (x :: xs) (ts ++ sep :: rest)

/-- The tokens of a label or type. -/
def tagTokens : Option String → List Token
  | none => []
  | some name => [.mark .colon, .word name]

/-- The tokens of a node. -/
def NodePattern.tokens (n : NodePattern) : List Token :=
  .mark .openRound :: .word n.variableName :: (tagTokens n.label ++ [.mark .closeRound])

/-- The tokens between the halves of an arrow. -/
inductive BracketTokens : Option String → List Token → Prop where
  | absent : BracketTokens none []
  | unnamed (type : Option String) :
      BracketTokens type (.mark .openSquare :: (tagTokens type ++ [.mark .closeSquare]))
  | named (name : String) (type : Option String) :
      BracketTokens type
        (.mark .openSquare :: .word name :: (tagTokens type ++ [.mark .closeSquare]))

/-- The tokens of a relationship. -/
inductive RelationTokens : RelationPattern → List Token → Prop where
  | right {type : Option String} {ts : List Token} (h : BracketTokens type ts) :
      RelationTokens ⟨true, type⟩ (.mark .dash :: (ts ++ [.mark .arrowRight]))
  | left {type : Option String} {ts : List Token} (h : BracketTokens type ts) :
      RelationTokens ⟨false, type⟩ (.mark .arrowLeft :: (ts ++ [.mark .dash]))

/-- The tokens of relationships with the nodes they lead to. -/
inductive StepsTokens : List (RelationPattern × NodePattern) → List Token → Prop where
  | nil : StepsTokens [] []
  | cons {r : RelationPattern} {n : NodePattern} {steps : List (RelationPattern × NodePattern)}
      {ts rest : List Token} (h : RelationTokens r ts) (hrest : StepsTokens steps rest) :
      StepsTokens ((r, n) :: steps) (ts ++ (n.tokens ++ rest))

/-- The tokens of a path. -/
inductive PathTokens : PathPattern → List Token → Prop where
  | intro {start : NodePattern} {steps : List (RelationPattern × NodePattern)}
      {ts : List Token} (h : StepsTokens steps ts) : PathTokens ⟨start, steps⟩ (start.tokens ++ ts)

/-- The marks of an operator. -/
inductive OperatorMark : Comparison → Mark → Prop where
  | equal : OperatorMark .eq .equal
  | unequal : OperatorMark .ne .unequal
  | bangEqual : OperatorMark .ne .bangEqual
  | less : OperatorMark .lt .less
  | atMost : OperatorMark .le .atMost
  | greater : OperatorMark .gt .greater
  | atLeast : OperatorMark .ge .atLeast

/-- Digits that write a number. -/
def DigitsText (n : Nat) (text : String) : Prop :=
  readNat? text.toList = some n

/-- The tokens of a literal value. -/
inductive ValueTokens : Json → List Token → Prop where
  | int {n : Nat} {digits : String} (h : DigitsText n digits) (hfits : fitsInt64 n = true) :
      ValueTokens (.int n) [.number digits]
  | negative {n : Nat} {digits : String} (h : DigitsText n digits)
      (hfits : fitsInt64 (-n) = true) :
      ValueTokens (.int (-n)) [.mark .dash, .number digits]
  | yes {t : Token} (h : KeywordToken "true" t) : ValueTokens (.bool true) [t]
  | no {t : Token} (h : KeywordToken "false" t) : ValueTokens (.bool false) [t]
  | str (quote : Char) (text : String) : ValueTokens (.str text) [.quoted quote text]

/-- The tokens of an operator and the value after it. -/
inductive ComparisonTokens : Comparison → Json → List Token → Prop where
  | apart {op : Comparison} {m : Mark} {value : Json} {ts : List Token}
      (hop : OperatorMark op m) (hvalue : ValueTokens value ts) :
      ComparisonTokens op value (.mark m :: ts)
  /-- `<` and the minus sign directly after it. -/
  | joined {n : Nat} {digits : String} (h : DigitsText n digits)
      (hfits : fitsInt64 (-n) = true) :
      ComparisonTokens .lt (.int (-n)) [.mark .arrowLeft, .number digits]

/-- The tokens of a condition. -/
inductive ConditionTokens : Condition → List Token → Prop where
  | intro {x name : String} {op : Comparison} {value : Json} {ts : List Token}
      (h : ComparisonTokens op value ts) :
      ConditionTokens ⟨x, ⟨name, op, value⟩⟩ (.word x :: .mark .dot :: .word name :: ts)

/-- The tokens of the conditions, if there are any. -/
inductive WhereTokens : List Condition → List Token → Prop where
  | absent : WhereTokens [] []
  | present {where_ : Token} {cs : List Condition} {ts : List Token}
      (hwhere : KeywordToken "WHERE" where_)
      (h : Separated ConditionTokens (KeywordToken "AND") cs ts) :
      WhereTokens cs (where_ :: ts)

/-- The tokens of what is returned. -/
inductive ReturnedTokens : Returned → List Token → Prop where
  | everything : ReturnedTokens .everything [.mark .star]
  | listed {names : List String} {ts : List Token}
      (h : Separated (fun x ts => ts = [.word x]) (· = .mark .comma) names ts) :
      ReturnedTokens (.listed names) ts

/-- The tokens of the limit, if there is one. -/
inductive LimitTokens : Option Nat → List Token → Prop where
  | absent : LimitTokens none []
  | present {limit : Token} {n : Nat} {digits : String} (hlimit : KeywordToken "LIMIT" limit)
      (h : DigitsText n digits) (hfits : n < 2 ^ 64) :
      LimitTokens (some n) [limit, .number digits]

/-- The tokens after the limit. -/
inductive EndTokens : List Token → Prop where
  | bare : EndTokens []
  | semicolon : EndTokens [.mark .semicolon]

/-- The tokens of a query. -/
inductive QueryTokens : QueryPattern → List Token → Prop where
  | intro {q : QueryPattern} {match_ return_ : Token}
      {paths conditions returned limit ending : List Token}
      (hmatch : KeywordToken "MATCH" match_)
      (hpaths : Separated PathTokens (· = .mark .comma) q.paths paths)
      (hconditions : WhereTokens q.conditions conditions)
      (hreturn : KeywordToken "RETURN" return_)
      (hreturned : ReturnedTokens q.returned returned)
      (hlimit : LimitTokens q.limit limit) (hending : EndTokens ending) :
      QueryTokens q
        (match_ :: (paths ++ (conditions ++ return_ :: (returned ++ (limit ++ ending)))))

/-- The texts of a query. -/
def QueryText (q : QueryPattern) (cs : List Char) : Prop :=
  ∃ ts, QueryTokens q ts ∧ Layout ts cs

end MotifQuery.Cypher
