namespace Lindenmayer.Text

abbrev Ranges := List (Nat × Nat)

def Ranges.contains (ranges : Ranges) (char : Char) : Bool :=
  ranges.any (fun range => range.1 ≤ char.toNat && char.toNat ≤ range.2)

theorem Ranges.contains_of_mem {ranges : Ranges} {low high : Nat} {char : Char}
    (hmem : (low, high) ∈ ranges) (hlow : low ≤ char.toNat) (hhigh : char.toNat ≤ high) :
    ranges.contains char = true :=
  List.any_eq_true.mpr ⟨(low, high), hmem, by simp [hlow, hhigh]⟩

end Lindenmayer.Text
