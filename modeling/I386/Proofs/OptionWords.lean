import I386.Proofs.Readers
import I386.Proofs.WrittenNumbers

/-!
Contract: the command-line reader of the program reads the words that give options.

Owns:
- what a word that gives an option is an argument of;
- decimal numbers as values of options;
- one step of the reader for each option.

Does not own: words of other forms.
-/

namespace I386

/-! ## Numbers -/

namespace Invocation

section Reading

variable {current : Invocation} {name : String} {rest : List String}

end Reading

end Invocation

end I386
