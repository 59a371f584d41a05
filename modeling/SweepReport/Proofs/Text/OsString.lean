import SweepReport.Text.OsString

/-! Strings of the system that are texts. A text comes back from its bytes, so that nothing is replaced
in it and two texts have different bytes. -/
namespace SweepReport

namespace Text

section
variable {a b c d : UInt8} (rest : List UInt8)

theorem firstChar?_one (ha : a.toNat < 0x80) : firstChar? (a :: rest) = some (Char.ofNat a.toNat, rest) := by
  simp only [firstChar?, UInt8.lt_iff_toNat_lt]
  exact if_pos ha

theorem firstChar?_two (ha : 0xc2 ≤ a.toNat ∧ a.toNat ≤ 0xdf) (hb : isTail b) :
    firstChar? (a :: b :: rest) = some (Char.ofNat (joinBits (a.toNat % 32) b), rest) := by
  have hlead : ¬ a < 0x80 :=
    UInt8.not_lt.mpr (UInt8.le_iff_toNat_le.mpr (Nat.le_trans (by decide) ha.1))
  simp [firstChar?, hlead, UInt8.le_iff_toNat_le, ha.1, ha.2, hb]

theorem firstChar?_three (ha : 0xe0 ≤ a.toNat ∧ a.toNat ≤ 0xef) (hb : isSecond a b) (hc : isTail c) :
    firstChar? (a :: b :: c :: rest) =
      some (Char.ofNat (joinBits (joinBits (a.toNat % 16) b) c), rest) := by
  have hlead : ¬ a < 0x80 :=
    UInt8.not_lt.mpr (UInt8.le_iff_toNat_le.mpr (Nat.le_trans (by decide) ha.1))
  have htwo : ¬ a.toNat ≤ 0xdf := by omega
  simp [firstChar?, hlead, UInt8.le_iff_toNat_le, htwo, ha.1, ha.2, hb, hc]

theorem firstChar?_four (ha : 0xf0 ≤ a.toNat ∧ a.toNat ≤ 0xf4) (hb : isSecond a b) (hc : isTail c)
    (hd : isTail d) : firstChar? (a :: b :: c :: d :: rest) =
      some (Char.ofNat (joinBits (joinBits (joinBits (a.toNat % 8) b) c) d), rest) := by
  have hlead : ¬ a < 0x80 :=
    UInt8.not_lt.mpr (UInt8.le_iff_toNat_le.mpr (Nat.le_trans (by decide) ha.1))
  have htwo : ¬ a.toNat ≤ 0xdf := by omega
  have hthree : ¬ a.toNat ≤ 0xef := by omega
  simp [firstChar?, hlead, UInt8.le_iff_toNat_le, htwo, hthree, ha.1, ha.2, hb, hc, hd]

theorem isTail_iff : isTail b ↔ 0x80 ≤ b.toNat ∧ b.toNat ≤ 0xbf := by
  simp [isTail, UInt8.le_iff_toNat_le]

/-- A second byte is one that goes on, in narrower bounds after some first bytes. -/
theorem isSecond_iff : isSecond a b ↔
    (0x80 ≤ b.toNat ∧ b.toNat ≤ 0xbf) ∧ (a.toNat = 0xe0 → 0xa0 ≤ b.toNat) ∧
      (a.toNat = 0xed → b.toNat ≤ 0x9f) ∧ (a.toNat = 0xf0 → 0x90 ≤ b.toNat) ∧
      (a.toNat = 0xf4 → b.toNat ≤ 0x8f) := by
  simp only [isSecond, isTail, ← UInt8.toNat_inj, UInt8.le_iff_toNat_le]
  grind

end

theorem firstChar?_utf8EncodeChar (c : Char) (rest : List UInt8) :
    firstChar? (String.utf8EncodeChar c ++ rest) = some (c, rest) := by
  obtain ⟨n, hn⟩ : ∃ n, n = c.val.toNat := ⟨_, rfl⟩
  have hchar : Char.ofNat n = c := hn ▸ Char.ofNat_toNat c
  have hvalid : n < 0xd800 ∨ 0xdfff < n ∧ n < 0x110000 := hn ▸ c.valid
  have hbyte {m : Nat} (hm : m < 256) : (UInt8.ofNat m).toNat = m := by
    rw [UInt8.toNat_ofNat', Nat.mod_eq_of_lt hm]
  have htail (m : Nat) : (UInt8.ofNat (m % 64 + 128)).toNat = m % 64 + 128 := hbyte (by omega)
  have hisTail (m : Nat) : isTail (UInt8.ofNat (m % 64 + 128)) := by
    rw [isTail_iff, htail]
    omega
  unfold String.utf8EncodeChar
  rw [← hn]
  dsimp only
  split
  · have ha : (UInt8.ofNat n).toNat = n := hbyte (by omega)
    rw [List.singleton_append, firstChar?_one rest (by omega), ha, hchar]
  split
  · have ha : (UInt8.ofNat (n / 64 % 32 + 192)).toNat = n / 64 % 32 + 192 := hbyte (by omega)
    have hcode : joinBits ((n / 64 % 32 + 192) % 32) (UInt8.ofNat (n % 64 + 128)) = n := by
      rw [joinBits, htail]
      omega
    rw [List.cons_append, List.singleton_append, firstChar?_two rest (by omega) (hisTail n), ha, hcode, hchar]
  split
  · have ha : (UInt8.ofNat (n / 4096 % 16 + 224)).toNat = n / 4096 % 16 + 224 := hbyte (by omega)
    have hsecond : isSecond (UInt8.ofNat (n / 4096 % 16 + 224)) (UInt8.ofNat (n / 64 % 64 + 128)) := by
      rw [isSecond_iff, ha, htail]
      omega
    have hcode : joinBits (joinBits ((n / 4096 % 16 + 224) % 16) (UInt8.ofNat (n / 64 % 64 + 128)))
        (UInt8.ofNat (n % 64 + 128)) = n := by
      rw [joinBits, joinBits, htail, htail]
      omega
    simp only [List.cons_append, List.nil_append]
    rw [firstChar?_three rest (by omega) hsecond (hisTail n), ha, hcode, hchar]
  · have ha : (UInt8.ofNat (n / 262144 % 8 + 240)).toNat = n / 262144 % 8 + 240 := hbyte (by omega)
    have hsecond : isSecond (UInt8.ofNat (n / 262144 % 8 + 240)) (UInt8.ofNat (n / 4096 % 64 + 128)) := by
      rw [isSecond_iff, ha, htail]
      omega
    have hcode : joinBits (joinBits (joinBits ((n / 262144 % 8 + 240) % 8)
        (UInt8.ofNat (n / 4096 % 64 + 128))) (UInt8.ofNat (n / 64 % 64 + 128)))
        (UInt8.ofNat (n % 64 + 128)) = n := by
      rw [joinBits, joinBits, joinBits, htail, htail, htail]
      omega
    simp only [List.cons_append, List.nil_append]
    rw [firstChar?_four rest (by omega) hsecond (hisTail _) (hisTail n), ha, hcode, hchar]

end Text

namespace OsString

@[simp] theorem bytes_append (s t : OsString) : (s ++ t).bytes = s.bytes ++ t.bytes := rfl

@[simp] theorem size_append (s t : OsString) : (s ++ t).size = s.size + t.size := List.length_append

@[simp] theorem bytes_ofText_slash : (ofText "/").bytes = [0x2f] := rfl

theorem bytes_eq_nil_iff {s : OsString} : s.bytes = [] ↔ s = "" :=
  ⟨congrArg OsString.mk, fun h => h ▸ rfl⟩

@[simp] theorem isEmpty_iff {s : OsString} : s.isEmpty ↔ s = "" := by
  rw [isEmpty, List.isEmpty_iff, bytes_eq_nil_iff]

theorem isEmpty_eq_false {s : OsString} (h : s ≠ "") : s.isEmpty = false := by
  rwa [← Bool.not_eq_true, isEmpty_iff]

theorem hasNul_iff {s : OsString} : s.hasNul ↔ 0 ∈ s.bytes := by
  simp [hasNul]

instance : Std.TransOrd OsString := inferInstanceAs (Std.TransCmp (compareOn bytes))

instance : Std.LawfulEqOrd OsString where
  eq_of_compare h := congrArg OsString.mk (Std.LawfulEqOrd.eq_of_compare h)

theorem lt_irrefl (s : OsString) : ¬ s < s := by
  intro h
  have hself : compare s s = .eq := Std.ReflCmp.compare_self
  rw [show compare s s = .lt from h] at hself
  contradiction

theorem lt_trans {r s t : OsString} (hrs : r < s) (hst : s < t) : r < t := Std.TransCmp.lt_trans hrs hst

instance : Std.Irrefl fun s t : OsString => s < t := ⟨lt_irrefl⟩

instance : Std.Antisymm fun s t : OsString => s < t :=
  ⟨fun s _ hst hts => absurd (lt_trans hst hts) (lt_irrefl s)⟩

theorem bytes_ofText (s : String) : (ofText s).bytes = s.toList.flatMap String.utf8EncodeChar := by
  rw [ofText, String.toUTF8]
  obtain ⟨cs, rfl⟩ : ∃ cs, s = String.ofList cs := ⟨s.toList, by simp⟩
  simp [List.utf8Encode]

theorem chunks_of_firstChar? {bs rest : List UInt8} {c : Char} (h : Text.firstChar? bs = some (c, rest)) :
    chunks bs = .char c :: chunks rest := by
  cases bs with
  | nil => contradiction
  | cons b bs =>
    rw [chunks]
    split
    · rename_i c' rest' h'
      rw [h', Option.some.injEq, Prod.mk.injEq] at h
      obtain ⟨rfl, rfl⟩ := h
      rfl
    · rename_i hnone
      rw [hnone] at h
      contradiction

theorem chunks_ofText (s : String) : chunks (ofText s).bytes = s.toList.map .char := by
  rw [bytes_ofText]
  induction s.toList with
  | nil => rw [List.flatMap_nil, chunks, List.map_nil]
  | cons c cs ih =>
    rw [List.flatMap_cons, chunks_of_firstChar? (Text.firstChar?_utf8EncodeChar c _), ih, List.map_cons]

theorem lossy_ofText (s : String) : (ofText s).lossy = s := by
  rw [lossy, chunks_ofText, List.map_map]
  exact (congrArg String.ofList (List.map_id _)).trans String.ofList_toList

theorem ofText_injective {s t : String} (h : ofText s = ofText t) : s = t := by
  rw [← lossy_ofText s, h, lossy_ofText]

theorem ofText_append (s t : String) : ofText (s ++ t) = ofText s ++ ofText t := by
  have hbytes : (ofText (s ++ t)).bytes = (ofText s).bytes ++ (ofText t).bytes := by
    rw [bytes_ofText, bytes_ofText, bytes_ofText, String.toList_append, List.flatMap_append]
  exact congrArg OsString.mk hbytes

def IsText (s : OsString) : Prop := ∃ t : String, s = t

/-- Nothing is replaced in a text. -/
theorem IsText.ofText_lossy {s : OsString} (h : s.IsText) : ofText s.lossy = s := by
  obtain ⟨t, rfl⟩ := h
  rw [lossy_ofText]

theorem IsText.append {s t : OsString} (hs : s.IsText) (ht : t.IsText) : (s ++ t).IsText := by
  obtain ⟨a, rfl⟩ := hs
  obtain ⟨b, rfl⟩ := ht
  exact ⟨a ++ b, (ofText_append a b).symm⟩

theorem text?_eq_some_iff {s : OsString} {t : String} : s.text? = some t ↔ s = ofText t := by
  rw [text?]
  constructor
  · intro h
    split at h
    · rename_i hs
      rw [← Option.some.inj h, hs]
    · contradiction
  · rintro rfl
    rw [lossy_ofText, if_pos rfl]

end OsString
end SweepReport
