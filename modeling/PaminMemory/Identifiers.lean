/-!
# Identifiers and instants

Every identifier is a UUID generated by the application, ordered by its bytes,
so a UUID is modelled by the number its bytes spell.  An instant is the number
of microseconds the database stores for it.
-/

namespace PaminMemory

abbrev Uuid := Nat

abbrev ProjectId := Uuid
abbrev TopicId := Uuid
abbrev TopicStateId := Uuid
abbrev SourceId := Uuid
abbrev SourceVersionId := Uuid
abbrev SourceSpanId := Uuid
abbrev RelationshipId := Uuid
abbrev RelationshipVersionId := Uuid
abbrev IndexJobId := Uuid

abbrev Instant := Int

def seconds (n : Int) : Int := n * 1000000

end PaminMemory
