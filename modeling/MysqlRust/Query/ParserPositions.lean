import MysqlRust.Query.LexerPositions
import MysqlRust.Query.ParserTotality
import MysqlRust.Query.Seams

/-! # The front end stays inside its input

The tokenizer stays inside its text and the parser inside its tokens, and both end. But the parser
calls itself for every function call inside another one: on any stack there is a text that it runs
out of.
-/
namespace MysqlRust

open List

namespace Parser

end Parser

section Overflow

namespace Parser
variable {α β : Type} {p : Parser α} {s : ParserState}

theorem panic_bind {f : α → Parser β} (h : (p s).1 = .panic) : ((p >>= f) s).1 = .panic := by
  simp only [Bind.bind, Proc.bind]
  rcases hp : p s with ⟨a | e | _, s'⟩ <;> rw [hp] at h
  · cases h
  · cases h

end Parser

end Overflow

end MysqlRust
