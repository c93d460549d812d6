namespace SourceBlocks.Text

def lowercase (c : Char) : Char := if 'A' ≤ c ∧ c ≤ 'Z' then Char.ofNat (c.toNat + 32) else c

end SourceBlocks.Text
