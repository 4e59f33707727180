-- Plain text, which has no rules at all.
import Highlighting.Grammar.Mode

namespace Highlighting.Bundled.PlainText

def grammar : Grammar where
  name := some "Plain text"
  aliases := ["text", "txt"]

end Highlighting.Bundled.PlainText
