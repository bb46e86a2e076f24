import HomeEnergyManager.Time.MkTime

/-! # Date tokens in the order of their days

`strcmp` compares two date tokens character by character. As their fields have a fixed width, with
the year in front, the texts of days with years of four digits are in the order of the days.
-/

namespace HomeEnergyManager

open Civil

theorem digit_lt {n n' : ℤ} (h : n % 10 < n' % 10) : digit n < digit n' := by
  have hall : ∀ k' < 10, ∀ k < k', Char.ofNat (48 + k) < Char.ofNat (48 + k') := by decide
  exact hall _ (by omega) _ (by omega)

theorem digit_congr {n n' : ℤ} (h : n % 10 = n' % 10) : digit n = digit n' := by
  rw [digit, digit, h]

/-- Two digits order what they begin. -/
theorem twoDigits_append_lt {n n' : ℤ} (h : n % 100 < n' % 100) (s t : DateStr) :
    twoDigits n ++ s < twoDigits n' ++ t := by
  show digit (n / 10) :: digit n :: s < digit (n' / 10) :: digit n' :: t
  rw [List.cons_lt_cons_iff, List.cons_lt_cons_iff]
  rcases lt_or_eq_of_le (show n / 10 % 10 ≤ n' / 10 % 10 by omega) with htens | htens
  · exact Or.inl (digit_lt htens)
  · exact Or.inr ⟨digit_congr htens, Or.inl (digit_lt (by omega))⟩

theorem fourDigits_append_lt {n n' : ℤ} (hn : 0 ≤ n) (h : n < n') (hn' : n' ≤ 9999)
    (s t : DateStr) : fourDigits n ++ s < fourDigits n' ++ t := by
  unfold fourDigits
  rw [List.append_assoc, List.append_assoc]
  rcases lt_or_eq_of_le (show n / 100 ≤ n' / 100 by omega) with hhundreds | hhundreds
  · exact twoDigits_append_lt (by omega) _ _
  · rw [hhundreds]
    exact List.append_left_lt (twoDigits_append_lt (by omega) s t)

/-- A later day has a later token. -/
theorem dateStr_lt {z z' : ℤ} (hz : Dated z) (hz' : Dated z') (h : z < z') :
    dateStr z < dateStr z' := by
  have hmonth := toDate_month z
  have hmonth' := toDate_month z'
  have hday := toDate_day z
  have hday' := toDate_day z'
  unfold dateStr
  dsimp only
  rw [List.append_assoc, List.append_assoc, List.cons_append, List.cons_append]
  rcases toDate_lt h with hyear | ⟨hyear, hrest⟩
  · exact fourDigits_append_lt hz.year.1 hyear hz'.year.2 _ _
  rw [hyear]
  refine List.append_left_lt (List.cons_lt_cons_iff.mpr (Or.inr ⟨rfl, ?_⟩))
  rcases hrest with hlt | ⟨heq, hlt⟩
  · exact twoDigits_append_lt (by omega) _ _
  · rw [heq]
    refine List.append_left_lt (List.cons_lt_cons_iff.mpr (Or.inr ⟨rfl, ?_⟩))
    have hlast := twoDigits_append_lt (show (toDate z).day % 100 < (toDate z').day % 100 by omega)
      [] []
    rwa [List.append_nil, List.append_nil] at hlast

/-- Tokens are compared as their days are. -/
theorem dateStr_lt_iff {z z' : ℤ} (hz : Dated z) (hz' : Dated z') :
    dateStr z < dateStr z' ↔ z < z' := by
  refine ⟨fun h => ?_, dateStr_lt hz hz'⟩
  by_contra hle
  rcases eq_or_lt_of_le (not_lt.mp hle) with rfl | hlt
  · exact List.lt_irrefl _ h
  · exact List.lt_asymm h (dateStr_lt hz' hz hlt)

end HomeEnergyManager
