/-!
# Lower case

Small letters are needed for the digits of hexadecimal tokens. Those of a source are ASCII; a token that was made by
hand may have others.
-/

namespace NestedStyles.Text

/-- The small letter of a capital one, for ASCII and for the letters of the first 256 code points. In that range the
capitals from `À` to `Þ` stand 32 before their small letters, and the multiplication sign among them is no letter. The
capitals behind that range stay as they are, which no source can show. -/
def toLower (c : Char) : Char :=
  if 0xC0 ≤ c.toNat ∧ c.toNat ≤ 0xDE ∧ c.toNat ≠ 0xD7 then Char.ofNat (c.toNat + 32) else c.toLower

end NestedStyles.Text
