import RecordSchema.Markup.Event

/-!
# Attributes

The attributes of a tag, read from what follows its name.  Malformed attributes are passed over:
a key without a value, a value without quotes and a key that occurred before.
-/

namespace RecordSchema.Markup

theorem length_dropWhile_le {α : Type} (p : α → Bool) (s : List α) :
    (s.dropWhile p).length ≤ s.length :=
  (List.dropWhile_suffix p).length_le

/-- Whether a character belongs to the key whose first character stands before it. -/
def isKeyChar (c : Char) : Bool := c != '=' && !isSpace c

/-- The attributes of a tag, leaving out the keys in `seen`. -/
def attributesAfter (seen : List (List Char)) (s : List Char) : List (String × String) :=
  match _h : s.dropWhile isSpace with
  | [] => []
  | c :: rest =>
    let key := c :: rest.takeWhile isKeyChar
    match _hk : (rest.dropWhile isKeyChar).dropWhile isSpace with
    | [] => []
    | '=' :: r =>
      if key ∈ seen then attributesAfter seen (r.dropWhile (!isSpace ·))
      else
        match _hv : r.dropWhile isSpace with
        | [] => []
        | q :: v =>
          if isQuote q then
            match _hr : v.dropWhile (· != q) with
            | [] => []
            | _ :: after =>
              (String.ofList key, String.ofList (v.takeWhile (· != q))) ::
                attributesAfter (key :: seen) after
          else attributesAfter (key :: seen) (v.dropWhile (!isSpace ·))
    | d :: r => attributesAfter seen (d :: r)
termination_by s.length
decreasing_by
  all_goals
    have h₁ := length_dropWhile_le isSpace s
    have h₂ := length_dropWhile_le isKeyChar rest
    have h₃ := length_dropWhile_le isSpace (rest.dropWhile isKeyChar)
    rw [_h] at h₁
    rw [_hk] at h₃
    simp only [List.length_cons] at h₁ h₃ ⊢
  · have := length_dropWhile_le (!isSpace ·) r
    omega
  · have h₄ := length_dropWhile_le isSpace r
    have h₅ := length_dropWhile_le (· != q) v
    rw [_hv] at h₄
    rw [_hr] at h₅
    simp only [List.length_cons] at h₄ h₅
    omega
  · have h₄ := length_dropWhile_le isSpace r
    have h₅ := length_dropWhile_le (!isSpace ·) v
    rw [_hv] at h₄
    simp only [List.length_cons] at h₄
    omega
  · omega

/-- The element of a start tag: its name ends at the first blank. -/
def Element.ofTag (body : List Char) : Element where
  name := String.ofList (body.takeWhile (!isSpace ·))
  attributes := attributesAfter [] (body.dropWhile (!isSpace ·))

end RecordSchema.Markup
