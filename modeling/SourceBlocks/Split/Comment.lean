import SourceBlocks.Text.Blank

namespace SourceBlocks.Split

/-- Whether nothing but white space is left when the comments are gone. In a comment all is skipped
up to the line break. -/
def isQuiet (inComment : Bool) : List Char → Bool
  | [] => true
  | c :: r =>
    if c = '\n' then isQuiet false r
    else if inComment then isQuiet true r
    else if c = '#' then isQuiet true r
    else Text.isBlank c && isQuiet false r

def isCommentOrBlank (s : List Char) : Bool := isQuiet false s

end SourceBlocks.Split
