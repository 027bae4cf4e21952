/-!
# Machine words

Volumes, instants and lengths of windows have 64 bits, with a sign.
-/

namespace TapeReader

/-- An integer as 64 bits hold it. A sum, difference or product that runs over at one end comes round
at the other. -/
def wrap (n : Int) : Int := (Int64.ofInt n).toInt

end TapeReader
