import MotifQuery.Cypher.Query
import MotifQuery.Motif.Parser

/-!
# `MotifQuery.Query.Compiled`: queries in either language

A query is written in motif statements or in Cypher. Both compile to a motif; a Cypher
query returns some columns of the matches and may have a limit.
-/

set_option autoImplicit false

namespace MotifQuery

/-- The language of a query. -/
inductive QueryLanguage where
  /-- Motif statements. -/
  | dotmotif
  | cypher
deriving DecidableEq

namespace QueryLanguage

/-- The name of a language. -/
def name : QueryLanguage → String
  | dotmotif => "dotmotif"
  | cypher => "cypher"

/-- The language with a name. -/
def ofName? (s : String) : Option QueryLanguage :=
  [dotmotif, cypher].find? fun language => language.name == s

end QueryLanguage

/-- A compiled query. -/
inductive CompiledQuery where
  | statements (m : Motif)
  | cypher (q : CypherQuery)
deriving DecidableEq

namespace CompiledQuery

/-- Compiles a query. -/
def compile (language : QueryLanguage) (source : String) : Except Failure CompiledQuery :=
  match language with
  | .dotmotif => (Motif.parse source).map .statements
  | .cypher => (CypherQuery.parse source).map .cypher

/-- The motif of a query. -/
def motif : CompiledQuery → Motif
  | statements m => m
  | cypher q => q.motif

/-- What a match binds: the entities of the motif, or the returned columns. -/
def entities : CompiledQuery → List String
  | statements m => m.entities
  | cypher q => q.columns

/-- The number of matches. -/
def count (g : HostGraph) : CompiledQuery → Nat
  | statements m => m.count g
  | cypher q => q.count g

/-- The matches. -/
def find (g : HostGraph) : CompiledQuery → List Match
  | statements m => m.find g
  | cypher q => q.find g

end CompiledQuery

end MotifQuery
