import SipProxy.Proofs.Ip.Host

/-!
# Addresses that are written and read again

Every address is read back from its text (`IpAddress.ofText?_text`), and so is the host that it is
in a message (`Host.ip?_ofIp`). For IPv4 this is four numbers that come back. For IPv6 it is the
groups between colons that do, together with the place where the text is cut at `::`: no text of
groups holds two colons in a row, so the two that stand for the folded zeros are the first.
-/

namespace SipProxy

/-! ## Hexadecimal digits -/

namespace Hex

theorem digit?_digitChar {d : Nat} (h : d < 16) : digit? d.digitChar = some d := by
  revert d
  decide

/-- One more digit behind the others. -/
theorem ofDigits?_append {d : Nat} (cs : List Char) (h : d < 16) :
    ofDigits? (cs ++ [d.digitChar]) = (ofDigits? cs).map (· * 16 + d) := by
  unfold ofDigits?
  rw [List.mapM_append, List.mapM_cons, List.mapM_nil, digit?_digitChar h]
  cases cs.mapM digit? with
  | none => rfl
  | some ds =>
    show some ((ds ++ [d]).foldl (fun n d => n * 16 + d) 0) = _
    rw [List.foldl_append]
    rfl

/-- A number is read back from its digits. -/
theorem ofDigits?_toDigits (n : Nat) : ofDigits? (Nat.toDigits 16 n) = some n := by
  induction n using Nat.strongRecOn with
  | ind n ih =>
    rw [Nat.toDigits_eq_if (by decide)]
    split
    · rename_i hlt
      have hone := ofDigits?_append [] hlt
      rw [List.nil_append] at hone
      rw [hone]
      show some (0 * 16 + n) = some n
      rw [Nat.zero_mul, Nat.zero_add]
    · rename_i hle
      have hdiv : n / 16 < n := Nat.div_lt_self (by omega) (by decide)
      rw [ofDigits?_append _ (Nat.mod_lt n (by decide)), ih _ hdiv, Option.map_some,
        Nat.div_add_mod']

end Hex

/-! ## IPv4 -/

namespace Ipv4

theorem octet?_toString (b : UInt8) : octet? (toString b.toNat).toList = some b := by
  have hall : ∀ n < 256, octet? (toString n).toList = some (UInt8.ofNat n) := by decide +kernel
  rw [hall b.toNat b.toNat_lt, UInt8.ofNat_toNat]

/-- The pieces of a dotted quad. -/
def pieces (ip : Ipv4) : List (List Char) :=
  [(toString ip.a.toNat).toList, (toString ip.b.toNat).toList, (toString ip.c.toNat).toList,
    (toString ip.d.toNat).toList]

theorem toList_text (ip : Ipv4) : ip.text.toList = ['.'].intercalate ip.pieces := by
  have hdot : (toString ".").toList = ['.'] := show ".".toList = ['.'] by decide
  unfold text pieces
  simp only [String.toList_append, hdot, List.intercalate_cons_of_ne_nil (List.cons_ne_nil _ _),
    List.intercalate_singleton, List.append_assoc]

/-- What is read as an octet is made of digits. -/
theorem isDigit_of_octet? {cs : List Char} {b : UInt8} (h : octet? cs = some b) :
    ∀ c ∈ cs, c.isDigit = true := by
  unfold octet? at h
  split at h
  · obtain ⟨n, hn, -⟩ := Option.map_eq_some_iff.1 h
    have hdigits := (Decimal.ofDigitsBelow?_eq_some.1 hn).1
    unfold Decimal.ofDigits? at hdigits
    split at hdigits
    · rename_i hnumber
      rw [Decimal.isNumber, Bool.and_eq_true, List.all_eq_true] at hnumber
      exact hnumber.2
    · cases hdigits
  · cases h

theorem ofChars?_text (ip : Ipv4) : ofChars? ip.text.toList = some ip := by
  have hdot : ∀ l ∈ ip.pieces, '.' ∉ l := by
    intro l hl hc
    simp only [pieces, List.mem_cons, List.not_mem_nil, or_false] at hl
    rcases hl with rfl | rfl | rfl | rfl
    all_goals exact absurd (Decimal.isDigit_of_mem_toString hc) (by decide)
  unfold ofChars?
  rw [toList_text, List.splitOn_intercalate '.' hdot (by simp [pieces])]
  simp only [pieces, List.map_cons, List.map_nil, octet?_toString]

/-- No dotted quad holds a colon. -/
theorem ofChars?_of_colon {cs : List Char} (h : ':' ∈ cs) : ofChars? cs = none := by
  unfold ofChars?
  split
  · rename_i a b c d hpieces
    exfalso
    -- a colon would be in one of the pieces, all of which are digits
    rw [← @List.intercalate_splitOn _ cs _ _ '.'] at h
    generalize cs.splitOn '.' = ls at h hpieces
    obtain ⟨l, hl, hc⟩ : ∃ l ∈ ls, ':' ∈ l := by
      clear hpieces
      induction ls with
      | nil => cases h
      | cons l ls ih =>
        cases ls with
        | nil =>
          rw [List.intercalate_singleton] at h
          exact ⟨l, List.mem_cons_self, h⟩
        | cons l' ls =>
          rw [List.intercalate_cons_of_ne_nil (List.cons_ne_nil _ _), List.append_assoc,
            List.mem_append, List.mem_append] at h
          rcases h with h | h | h
          · exact ⟨l, List.mem_cons_self, h⟩
          · exact absurd h (by decide)
          · obtain ⟨x, hx, hc⟩ := ih h
            exact ⟨x, List.mem_cons_of_mem l hx, hc⟩
    obtain ⟨x, hx⟩ : ∃ x, octet? l = some x := by
      have hmem : octet? l ∈ [some a, some b, some c, some d] := by
        rw [← hpieces]
        exact List.mem_map_of_mem hl
      simp only [List.mem_cons, List.not_mem_nil, or_false] at hmem
      rcases hmem with h | h | h | h
      all_goals exact ⟨_, h⟩
    exact absurd (isDigit_of_octet? hx ':' hc) (by decide)
  · rfl

end Ipv4

/-! ## IPv6 -/

namespace Ipv6

theorem group?_groupText (g : UInt16) : group? (groupText g) = some g := by
  have hlen : (groupText g).length ≤ 4 :=
    (Nat.length_toDigits_le_iff (by decide) (by decide)).2 g.toNat_lt
  have hpos : 0 < (groupText g).length := List.length_pos_iff.2 Nat.toDigits_ne_nil
  unfold group?
  rw [if_pos (by simpa using ⟨hpos, hlen⟩), groupText, Hex.ofDigits?_toDigits, Option.map_some,
    UInt16.ofNat_toNat]

theorem colon_notMem_groupText (g : UInt16) : ':' ∉ groupText g := by
  intro h
  obtain ⟨d, hd, hc⟩ := exists_digitChar_of_mem_toDigits h
  revert hc
  revert d
  decide

theorem groupsText_cons_cons (g g' : UInt16) (gs : List UInt16) :
    groupsText (g :: g' :: gs) = groupText g ++ ':' :: groupsText (g' :: gs) := by
  unfold groupsText
  rw [List.map_cons, List.intercalate_cons_of_ne_nil (by simp), List.append_assoc]
  rfl

theorem groupsText_singleton (g : UInt16) : groupsText [g] = groupText g := by
  unfold groupsText
  rw [List.map_singleton, List.intercalate_singleton]

/-- Groups do not begin with a colon. -/
theorem exists_cons_groupsText (g : UInt16) (gs : List UInt16) :
    ∃ c cs, groupsText (g :: gs) = c :: cs ∧ c ≠ ':' := by
  obtain ⟨c, cs, hcs⟩ := List.exists_cons_of_ne_nil (l := groupText g) Nat.toDigits_ne_nil
  have hc : c ≠ ':' := by
    rintro rfl
    apply colon_notMem_groupText g
    rw [hcs]
    exact List.mem_cons_self
  cases gs with
  | nil => exact ⟨c, cs, by rw [groupsText_singleton, hcs], hc⟩
  | cons g' gs =>
    exact ⟨c, _, by rw [groupsText_cons_cons, hcs, List.cons_append], hc⟩

theorem ofPieces?_groups (quad : Bool) (gs : List UInt16) :
    ofPieces? quad (gs.map groupText) = some gs := by
  induction gs with
  | nil => rfl
  | cons g gs ih =>
    cases gs with
    | nil => simp only [List.map_cons, List.map_nil, ofPieces?, group?_groupText]
    | cons g' gs =>
      simp only [List.map_cons] at ih ⊢
      simp only [ofPieces?, group?_groupText, ih, Option.map_some]

/-- Groups are read back, be they none. -/
theorem run?_groupsText (quad : Bool) (gs : List UInt16) :
    run? quad (groupsText gs) = some gs := by
  cases gs with
  | nil => rfl
  | cons g gs =>
    obtain ⟨c, cs, hcs, -⟩ := exists_cons_groupsText g gs
    have hempty : (groupsText (g :: gs)).isEmpty = false := by
      rw [hcs]
      rfl
    have hcolon : ∀ l ∈ (g :: gs).map groupText, ':' ∉ l := by
      intro l hl
      obtain ⟨x, -, rfl⟩ := List.mem_map.1 hl
      exact colon_notMem_groupText x
    have hsplit : (groupsText (g :: gs)).splitOn ':' = (g :: gs).map groupText := by
      unfold groupsText
      exact List.splitOn_intercalate ':' hcolon (by simp)
    unfold run?
    rw [hempty, hsplit]
    exact ofPieces?_groups quad (g :: gs)

/-! ### Where the text is cut -/

theorem cutFirstText_append {w : List Char} (hw : ':' ∉ w) (s : List Char) :
    Text.cutFirstText [':', ':'] (w ++ s) =
      (Text.cutFirstText [':', ':'] s).map fun p => (w ++ p.1, p.2) := by
  induction w with
  | nil => simp
  | cons c w ih =>
    rw [List.mem_cons, not_or] at hw
    have hdrop : Text.dropFront? [':', ':'] (c :: (w ++ s)) = none := by
      unfold Text.dropFront?
      rw [if_neg (Ne.symm hw.1)]
    rw [List.cons_append, Text.cutFirstText, hdrop]
    simp only [ih hw.2, Option.map_map]
    rfl

/-- A single colon is passed over. -/
theorem cutFirstText_colon {c : Char} {s : List Char} (hc : c ≠ ':') :
    Text.cutFirstText [':', ':'] (':' :: c :: s) =
      (Text.cutFirstText [':', ':'] (c :: s)).map fun p => (':' :: p.1, p.2) := by
  have hdrop : Text.dropFront? [':', ':'] (':' :: c :: s) = none := by
    simp [Text.dropFront?, hc]
  conv => lhs; rw [Text.cutFirstText, hdrop]

/-- No two colons stand side by side between groups. -/
theorem cutFirstText_groupsText (gs : List UInt16) (s : List Char) :
    Text.cutFirstText [':', ':'] (groupsText gs ++ s) =
      (Text.cutFirstText [':', ':'] s).map fun p => (groupsText gs ++ p.1, p.2) := by
  induction gs with
  | nil => simp [groupsText]
  | cons g gs ih =>
    cases gs with
    | nil =>
      rw [groupsText_singleton]
      exact cutFirstText_append (colon_notMem_groupText g) s
    | cons g' gs =>
      obtain ⟨c, cs, hcs, hc⟩ := exists_cons_groupsText g' gs
      rw [hcs, List.cons_append] at ih
      rw [groupsText_cons_cons, List.append_assoc, cutFirstText_append (colon_notMem_groupText g),
        hcs, List.cons_append, List.cons_append, cutFirstText_colon hc, ih, Option.map_map,
        Option.map_map]
      congr 1
      funext p
      simp

/-! ### Folded zeros -/

/-- What is folded is a run of zeros. -/
theorem longestZeros_spec (gs : List UInt16) :
    (longestZeros gs).1 + (longestZeros gs).2 ≤ gs.length ∧
      gs = gs.take (longestZeros gs).1 ++ List.replicate (longestZeros gs).2 0 ++
        gs.drop ((longestZeros gs).1 + (longestZeros gs).2) := by
  induction gs with
  | nil => exact ⟨Nat.le_refl 0, rfl⟩
  | cons g gs ih =>
    obtain ⟨hle, hsplit⟩ := ih
    unfold longestZeros
    simp only
    split
    · -- the zeros in front
      have hzeros : (g :: gs).takeWhile (· == 0) =
          List.replicate ((g :: gs).takeWhile (· == 0)).length 0 := by
        refine List.eq_replicate_iff.2 ⟨rfl, fun b hb => ?_⟩
        simpa using List.all_eq_true.1 List.all_takeWhile b hb
      have hparts := List.takeWhile_append_dropWhile (p := (· == (0 : UInt16))) (l := g :: gs)
      have hlen := congrArg List.length hparts
      have hdrop := @List.drop_left _ ((g :: gs).takeWhile (· == 0)) ((g :: gs).dropWhile (· == 0))
      rw [List.length_append] at hlen
      rw [hparts] at hdrop
      refine ⟨by omega, ?_⟩
      rw [List.take_zero, List.nil_append, Nat.zero_add, ← hzeros, hdrop, hparts]
    · refine ⟨by rw [List.length_cons]; omega, ?_⟩
      rw [List.take_succ_cons, Nat.succ_add, List.drop_succ_cons, List.cons_append,
        List.cons_append, ← hsplit]

theorem eq_of_groups {ip ip' : Ipv6} (h : ip.groups = ip'.groups) : ip = ip' := by
  obtain ⟨groups, hlen⟩ := ip
  obtain ⟨groups', hlen'⟩ := ip'
  cases h
  rfl

theorem expand?_eq_some {ip : Ipv6} {front back : List UInt16}
    (hlen : front.length + back.length ≤ 7)
    (h : ip.groups = front ++ List.replicate (8 - (front.length + back.length)) 0 ++ back) :
    expand? front back = some ip := by
  unfold expand?
  rw [dif_pos hlen]
  exact congrArg some (eq_of_groups h.symm)

/-! ### Embedded IPv4 addresses -/

theorem groups_of_mapped {ip : Ipv6} {quad : Ipv4} (h : ip.mapped? = some quad) :
    ip.groups = List.replicate 5 0 ++ 0xFFFF :: quad.groups := by
  unfold mapped? at h
  split at h
  · rename_i g g' hgroups
    cases h
    have hsplit : ∀ n : UInt16, (n / 256).toUInt8.toUInt16 * 256 + n.toUInt8.toUInt16 = n := by
      intro n
      apply UInt16.toNat_inj.1
      have hlt := n.toNat_lt
      simp only [UInt16.toNat_add, UInt16.toNat_mul, UInt8.toNat_toUInt16, UInt16.toNat_toUInt8,
        UInt16.toNat_div, UInt16.reduceToNat]
      omega
    rw [hgroups]
    simp only [Ipv4.groups, hsplit]
    rfl
  · cases h

theorem colon_notMem_quad (quad : Ipv4) : ':' ∉ quad.text.toList := by
  intro h
  have hread := quad.ofChars?_text
  rw [Ipv4.ofChars?_of_colon h] at hread
  cases hread

/-- A dotted quad is too long for a group. -/
theorem group?_quad (quad : Ipv4) : group? quad.text.toList = none := by
  have hlen : ∀ n : Nat, 0 < (toString n).toList.length := by
    intro n
    rw [Decimal.toList_toString]
    exact List.length_pos_iff.2 Nat.toDigits_ne_nil
  have ha := hlen quad.a.toNat
  have hb := hlen quad.b.toNat
  have hc := hlen quad.c.toNat
  have hd := hlen quad.d.toNat
  have htext : 4 < quad.text.toList.length := by
    rw [Ipv4.toList_text, Ipv4.pieces]
    simp only [List.intercalate_cons_of_ne_nil (List.cons_ne_nil _ _), List.intercalate_singleton,
      List.length_append, List.length_singleton]
    omega
  unfold group?
  rw [if_neg]
  simp only [Bool.and_eq_true, decide_eq_true_eq]
  omega

/-- The groups behind the gap of a mapped address. -/
theorem run?_mapped (quad : Ipv4) :
    run? true ("ffff:".toList ++ quad.text.toList) = some (0xFFFF :: quad.groups) := by
  have hsplit : ("ffff:".toList ++ quad.text.toList).splitOn ':' =
      ["ffff".toList, quad.text.toList] := by
    have hcolon : ∀ l ∈ ["ffff".toList, quad.text.toList], ':' ∉ l := by
      intro l hl
      simp only [List.mem_cons, List.not_mem_nil, or_false] at hl
      rcases hl with rfl | rfl
      · decide
      · exact colon_notMem_quad quad
    have hjoin : "ffff:".toList ++ quad.text.toList =
        [':'].intercalate ["ffff".toList, quad.text.toList] := by
      rw [List.intercalate_cons_of_ne_nil (List.cons_ne_nil _ _), List.intercalate_singleton]
      rfl
    rw [hjoin]
    exact List.splitOn_intercalate ':' hcolon (by simp)
  have hffff : group? "ffff".toList = some 0xFFFF := by decide
  unfold run?
  rw [hsplit]
  show ofPieces? true ["ffff".toList, quad.text.toList] = _
  simp only [ofPieces?, hffff, group?_quad, Ipv4.ofChars?_text, Option.map_some, if_true]

/-- An address is read back from its text, however its groups are written. -/
theorem ofChars?_text (ip : Ipv6) : ofChars? ip.text.toList = some ip := by
  unfold text
  cases hm : ip.mapped? with
  | some quad =>
    have hcut : Text.cutFirstText [':', ':'] ("::ffff:" ++ quad.text).toList =
        some ([], "ffff:".toList ++ quad.text.toList) := by
      rw [String.toList_append]
      rfl
    unfold ofChars?
    simp only [hcut, run?_mapped]
    exact @expand?_eq_some ip [] (0xFFFF :: quad.groups) (show 0 + 3 ≤ 7 by decide)
      (groups_of_mapped hm)
  | none =>
    obtain ⟨hle, hsplit⟩ := longestZeros_spec ip.groups
    have height := ip.length_groups
    simp only
    split
    · rename_i hfold
      have hcut := cutFirstText_groupsText (ip.groups.take (longestZeros ip.groups).1)
        (':' :: ':' :: groupsText
          (ip.groups.drop ((longestZeros ip.groups).1 + (longestZeros ip.groups).2)))
      have htwo : ∀ s, Text.cutFirstText [':', ':'] (':' :: ':' :: s) = some ([], s) := by
        intro s
        rfl
      rw [htwo, Option.map_some, List.append_nil] at hcut
      unfold ofChars?
      rw [String.toList_ofList, List.append_assoc]
      simp only [List.cons_append, List.nil_append, hcut, run?_groupsText]
      have hfront : (ip.groups.take (longestZeros ip.groups).1).length =
          (longestZeros ip.groups).1 := by
        rw [List.length_take]
        omega
      have hback := List.length_drop
        (i := (longestZeros ip.groups).1 + (longestZeros ip.groups).2) (l := ip.groups)
      refine expand?_eq_some (by omega) ?_
      have hgap : 8 - ((ip.groups.take (longestZeros ip.groups).1).length +
          (ip.groups.drop ((longestZeros ip.groups).1 + (longestZeros ip.groups).2)).length) =
            (longestZeros ip.groups).2 := by
        omega
      rw [hgap]
      exact hsplit
    · have hcut : Text.cutFirstText [':', ':'] (groupsText ip.groups) = none := by
        rw [← List.append_nil (groupsText ip.groups), cutFirstText_groupsText]
        rfl
      unfold ofChars?
      rw [String.toList_ofList]
      simp only [hcut, run?_groupsText, dif_pos height]

/-- The text of an IPv6 address is told from a dotted quad by a colon. -/
theorem colon_mem_text (ip : Ipv6) : ':' ∈ ip.text.toList := by
  unfold text
  cases ip.mapped? with
  | some quad =>
    rw [String.toList_append, List.mem_append]
    exact .inl (by decide)
  | none =>
    simp only
    split
    · rw [String.toList_ofList]
      simp
    · rw [String.toList_ofList]
      have height := ip.length_groups
      rcases hg : ip.groups with - | ⟨g, - | ⟨g', gs⟩⟩
      · rw [hg] at height
        cases height
      · rw [hg] at height
        cases height
      · rw [groupsText_cons_cons]
        simp

end Ipv6

/-! ## Both families -/

/-- An address is read back from its text. -/
theorem IpAddress.ofText?_text (ip : IpAddress) : ofText? ip.text = some ip := by
  cases ip with
  | v4 ip => simp only [ofText?, text, Ipv4.ofChars?_text]
  | v6 ip =>
    simp only [ofText?, text, Ipv4.ofChars?_of_colon ip.colon_mem_text, Ipv6.ofChars?_text,
      Option.map_some]

namespace Host

theorem unbracket_ofIp (ip : IpAddress) : unbracket (ofIp ip) = ip.text := by
  cases ip with
  | v4 ip => exact unbracket_text (.v4 ip)
  | v6 ip =>
    have hlist : (ofIp (.v6 ip)).toList = '[' :: (ip.text.toList ++ [']']) := by
      simp [ofIp]
    unfold unbracket
    rw [hlist]
    simp only [List.getLast?_concat, List.dropLast_concat, String.ofList_toList]
    rfl

/-- The host that an address is in a message is read as that address. -/
theorem ip?_ofIp (ip : IpAddress) : ip? (ofIp ip) = some ip := by
  rw [ip?, unbracket_ofIp, IpAddress.ofText?_text]

end Host

end SipProxy
