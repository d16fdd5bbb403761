import CodeAtlas.Json.Parser
import CodeAtlas.Json.Printer
import CodeAtlas.Proofs.Text.Utf8
/-!
# Lists of texts written and read

A list of texts is kept in a cell as the text of a JSON array. Whatever stands in the texts, reading the cell gives the
same list.
-/

namespace CodeAtlas.Json

theorem toNat_ofByte (b : UInt8) : (ofByte b).toNat = b.toNat := by
  have hb : b.toNat < 256 := b.toNat_lt
  have hvalid : b.toNat.isValidChar := Or.inl (by omega)
  rw [ofByte, Char.ofNat, dif_pos hvalid]
  rfl

@[simp]
theorem toByte_ofByte (b : UInt8) : toByte (ofByte b) = b := by
  rw [toByte, toNat_ofByte]
  exact UInt8.ofNat_toNat

theorem bytesOf_eq (c : Char) : bytesOf c = (String.utf8EncodeChar c).map ofByte := by
  rw [bytesOf, Text.encode_ofList, List.flatMap_singleton]

theorem bytesOf_ascii {c : Char} (h : c.toNat < 128) : bytesOf c = [c] := by
  have hsmall : c.val.toNat ≤ 127 := Nat.le_of_lt_succ h
  have hbyte : (UInt8.ofNat c.val.toNat).toNat = c.toNat := Text.Utf8.toNat_ofNat (by omega)
  rw [bytesOf_eq, String.utf8EncodeChar.eq_def]
  dsimp only
  rw [if_pos hsmall, List.map_singleton, ofByte, hbyte, Char.ofNat_toNat]

/-- Beyond ASCII no byte of a character is an ASCII one. -/
theorem le_of_mem_bytesOf {c b : Char} (h : 128 ≤ c.toNat) (hb : b ∈ bytesOf c) : 128 ≤ b.toNat := by
  have hlarge : ¬ c.val.toNat ≤ 127 := Nat.not_le_of_lt h
  have hbyte : ∀ n k : Nat, k + n < 256 → 128 ≤ n → 128 ≤ (UInt8.ofNat (k + n)).toNat := by
    intro n k hn hk
    rw [Text.Utf8.toNat_ofNat hn]
    omega
  rw [bytesOf_eq] at hb
  obtain ⟨a, ha, rfl⟩ := List.mem_map.1 hb
  rw [toNat_ofByte]
  rw [String.utf8EncodeChar.eq_def] at ha
  dsimp only at ha
  rw [if_neg hlarge] at ha
  split at ha
  · simp only [List.mem_cons, List.not_mem_nil, or_false] at ha
    rcases ha with rfl | rfl <;> exact hbyte _ _ (by omega) (by omega)
  split at ha
  · simp only [List.mem_cons, List.not_mem_nil, or_false] at ha
    rcases ha with rfl | rfl | rfl <;> exact hbyte _ _ (by omega) (by omega)
  · simp only [List.mem_cons, List.not_mem_nil, or_false] at ha
    rcases ha with rfl | rfl | rfl | rfl <;> exact hbyte _ _ (by omega) (by omega)

theorem encode_map_ofByte (s : String) : (Text.encode s).map ofByte = s.toList.flatMap bytesOf := by
  have hbytes := Text.encode_ofList s.toList
  rw [String.ofList_toList] at hbytes
  rw [hbytes, List.map_flatMap, funext bytesOf_eq]

theorem flatMap_bytesOf_map_toByte (s : String) : (s.toList.flatMap bytesOf).map toByte = Text.encode s := by
  have hid : toByte ∘ ofByte = id := funext toByte_ofByte
  rw [← encode_map_ofByte, List.map_map, hid, List.map_id]

section Strings

/-- A character that stands for itself inside a string. -/
def Plain (c : Char) : Prop := c ≠ '"' ∧ c ≠ '\\' ∧ 32 ≤ c.toNat

theorem stringRest_plain {c : Char} (h : Plain c) (done rest : List Char) :
    stringRest done (c :: rest) = stringRest (c :: done) rest := by
  obtain ⟨hquote, hslash, hcontrol⟩ := h
  rw [stringRest.eq_def]
  split
  · next heq => cases heq
  · next heq => exact absurd (List.cons.inj heq).1 hquote
  · next heq => exact absurd (List.cons.inj heq).1 hslash
  · next heq => exact absurd (List.cons.inj heq).1 hslash
  · next heq =>
      obtain ⟨rfl, rfl⟩ := List.cons.inj heq
      rw [if_neg (by omega)]

theorem stringRest_plains {bs : List Char} (h : ∀ b ∈ bs, Plain b) (done rest : List Char) :
    stringRest done (bs ++ rest) = stringRest (bs.reverse ++ done) rest := by
  induction bs generalizing done with
  | nil => rfl
  | cons b more ih =>
      have hmore : ∀ b ∈ more, Plain b := fun b hb => h b (List.mem_cons_of_mem _ hb)
      rw [List.cons_append, stringRest_plain (h b List.mem_cons_self), ih hmore, List.reverse_cons, List.append_assoc,
        List.singleton_append]

theorem plain_of_mem_bytesOf {c b : Char} (h : Plain c) (hb : b ∈ bytesOf c) : Plain b := by
  by_cases hc : c.toNat < 128
  · rw [bytesOf_ascii hc, List.mem_singleton] at hb
    exact hb ▸ h
  · have hlarge := le_of_mem_bytesOf (Nat.le_of_not_lt hc) hb
    refine ⟨?_, ?_, by omega⟩
    · rintro rfl
      exact absurd hlarge (by decide)
    · rintro rfl
      exact absurd hlarge (by decide)

theorem hex4?_hexChar {n : Nat} (h : n < 32) : hex4? '0' '0' (hexChar (n / 16)) (hexChar n) = some n := by
  interval_cases n <;> rfl

theorem toNat_hexChar_lt (n : Nat) : (hexChar n).toNat < 128 := by
  have hdigit : n % 16 < 16 := Nat.mod_lt n (by decide)
  rw [hexChar]
  interval_cases n % 16 <;> decide

theorem flatMap_bytesOf_ascii {cs : List Char} (h : ∀ c ∈ cs, c.toNat < 128) : cs.flatMap bytesOf = cs := by
  induction cs with
  | nil => rfl
  | cons c rest ih =>
      have hrest : ∀ c ∈ rest, c.toNat < 128 := fun c hc => h c (List.mem_cons_of_mem _ hc)
      rw [List.flatMap_cons, bytesOf_ascii (h c List.mem_cons_self), ih hrest, List.singleton_append]

theorem stringRest_letter {l e : Char} (hl : escaped? l = some e) (hu : l ≠ 'u') (done rest : List Char) :
    stringRest done ('\\' :: l :: rest) = stringRest (e :: done) rest := by
  rw [stringRest.eq_def]
  split
  · next heq => cases heq
  · next heq => exact absurd (List.cons.inj heq).1 (by decide)
  · next heq => exact absurd (List.cons.inj (List.cons.inj heq).2).1 hu
  · next heq =>
      obtain ⟨rfl, rfl⟩ := List.cons.inj (List.cons.inj heq).2
      rw [hl]
  · next hno heq =>
      obtain ⟨rfl, rfl⟩ := List.cons.inj heq
      exact (hno l rest rfl rfl).elim

/-- An escape of four digits, for a character that needs no second one. -/
theorem stringRest_digits {a b c d : Char} {n : Nat} (h : hex4? a b c d = some n) (hn : n < 0xD800)
    (done rest : List Char) :
    stringRest done ('\\' :: 'u' :: a :: b :: c :: d :: rest) =
      stringRest ((bytesOf (Char.ofNat n)).reverse ++ done) rest := by
  rw [stringRest, h]
  dsimp only
  rw [if_neg (by omega), if_neg (by omega)]

/-- The characters with an escape of one letter. -/
def lettered : List Char := ['"', '\\', '\n', '\r', '\t', Char.ofNat 8, Char.ofNat 12]

theorem escapeChar_lettered : ∀ c ∈ lettered, ∃ l ∈ ['"', '\\', 'n', 'r', 't', 'b', 'f'],
    escapeChar c = ['\\', l] ∧ escaped? l = some c ∧ l ≠ 'u' ∧ ∀ d ∈ [c, '\\', l], d.toNat < 128 := by
  simp [lettered, escapeChar, escaped?]

theorem escapeChar_rest {c : Char} (h : c ∉ lettered) :
    escapeChar c =
      if c.toNat < 32 then ['\\', 'u', '0', '0', hexChar (c.toNat / 16), hexChar c.toNat] else [c] := by
  have hchar : ∀ n, c.toNat = n → c = Char.ofNat n := fun n hn => hn ▸ (Char.ofNat_toNat c).symm
  simp only [lettered, List.mem_cons, List.not_mem_nil, or_false, not_or] at h
  obtain ⟨hquote, hslash, hn, hr, ht, hb, hf⟩ := h
  rw [escapeChar, if_neg hquote, if_neg hslash, if_neg hn, if_neg hr, if_neg ht, if_neg (mt (hchar 8) hb),
    if_neg (mt (hchar 12) hf)]

/-- A character is read from what is written for it. -/
theorem stringRest_escapeChar (c : Char) (done rest : List Char) :
    stringRest done ((escapeChar c).flatMap bytesOf ++ rest) = stringRest ((bytesOf c).reverse ++ done) rest := by
  by_cases hletter : c ∈ lettered
  · obtain ⟨l, -, hescape, hread, hu, hascii⟩ := escapeChar_lettered c hletter
    have hwritten : ∀ d ∈ ['\\', l], d.toNat < 128 := fun d hd => hascii d (List.mem_cons_of_mem c hd)
    rw [hescape, flatMap_bytesOf_ascii hwritten, bytesOf_ascii (hascii c List.mem_cons_self)]
    exact stringRest_letter hread hu done rest
  rw [escapeChar_rest hletter]
  split
  · next hcontrol =>
      have hwritten : ∀ d ∈ ['\\', 'u', '0', '0', hexChar (c.toNat / 16), hexChar c.toNat], d.toNat < 128 := by
        simp only [List.mem_cons, List.not_mem_nil, or_false, forall_eq_or_imp, forall_eq]
        exact ⟨by decide, by decide, by decide, by decide, toNat_hexChar_lt _, toNat_hexChar_lt _⟩
      have hread := stringRest_digits (hex4?_hexChar hcontrol) (by omega) done rest
      rw [Char.ofNat_toNat] at hread
      rw [flatMap_bytesOf_ascii hwritten]
      exact hread
  · next hcontrol =>
      have hplain : Plain c := by
        refine ⟨?_, ?_, Nat.le_of_not_lt hcontrol⟩
        · exact fun h => hletter (h ▸ by decide)
        · exact fun h => hletter (h ▸ by decide)
      rw [List.flatMap_singleton]
      exact stringRest_plains (fun b hb => plain_of_mem_bytesOf hplain hb) done rest

theorem stringRest_escaped (cs done rest : List Char) :
    stringRest done ((cs.flatMap escapeChar).flatMap bytesOf ++ '"' :: rest) =
      (Text.decodeExact? ((done.reverse ++ cs.flatMap bytesOf).map toByte)).map fun text => (text, rest) := by
  induction cs generalizing done with
  | nil => rw [List.flatMap_nil, List.flatMap_nil, List.nil_append, List.append_nil, stringRest]
  | cons c more ih =>
      rw [List.flatMap_cons, List.flatMap_append, List.append_assoc, stringRest_escapeChar, ih, List.reverse_append,
        List.reverse_reverse, List.append_assoc, List.flatMap_cons]

/-- What is written for a string is read as that string. -/
theorem stringRest_quote (s : String) (rest : List Char) :
    stringRest [] ((s.toList.flatMap escapeChar).flatMap bytesOf ++ '"' :: rest) = some (s, rest) := by
  rw [stringRest_escaped, List.reverse_nil, List.nil_append, flatMap_bytesOf_map_toByte, Text.decodeExact?_encode]
  rfl

end Strings

section Lists

theorem bytes_quote (s : String) :
    (quote s).toList.flatMap bytesOf = '"' :: ((s.toList.flatMap escapeChar).flatMap bytesOf ++ ['"']) := by
  have hquote : bytesOf '"' = ['"'] := bytesOf_ascii (by decide)
  rw [quote, String.toList_ofList, List.cons_append, List.flatMap_cons, List.flatMap_append, List.flatMap_singleton,
    hquote, List.singleton_append]

theorem value?_quote (s : String) (fuel depth : Nat) (rest : List Char) :
    value? (fuel + 1) depth .everything ((quote s).toList.flatMap bytesOf ++ rest) = some (.str s, rest) := by
  rw [bytes_quote, List.cons_append, List.append_assoc, List.singleton_append, value?.eq_def]
  change (stringRest [] _).map _ = _
  rw [stringRest_quote]
  rfl

section

variable {fuel depth : Nat} {cs rest : List Char} {item : Json}

theorem items?_last (h : value? fuel depth .everything cs = some (item, ']' :: rest)) :
    items? (fuel + 1) depth .everything cs = some ([item], rest) := by
  rw [items?.eq_def]
  dsimp only [Wanted.next]
  rw [h]
  rfl

theorem items?_comma (h : value? fuel depth .everything cs = some (item, ',' :: rest)) :
    items? (fuel + 1) depth .everything cs =
      (items? fuel depth .everything rest).map fun (items, rest) => (item :: items, rest) := by
  rw [items?.eq_def]
  dsimp only [Wanted.next]
  rw [h]
  rfl

end

theorem bytes_intercalate (s t : String) (more : List String) :
    (",".intercalate ((s :: t :: more).map quote)).toList.flatMap bytesOf =
      (quote s).toList.flatMap bytesOf ++ ',' :: (",".intercalate ((t :: more).map quote)).toList.flatMap bytesOf := by
  have hcomma : ",".toList.flatMap bytesOf = [','] := flatMap_bytesOf_ascii (by simp)
  rw [List.map_cons, List.map_cons, String.intercalate_cons_cons, String.toList_append, String.toList_append,
    List.flatMap_append, List.flatMap_append, List.append_assoc, hcomma, List.singleton_append]

/-- The items of a list of texts, up to the bracket that closes it. -/
theorem items?_quotes (s : String) (more : List String) {fuel : Nat} (hfuel : more.length < fuel) (depth : Nat)
    (rest : List Char) :
    items? (fuel + 1) depth .everything
        ((",".intercalate ((s :: more).map quote)).toList.flatMap bytesOf ++ ']' :: rest) =
      some ((s :: more).map .str, rest) := by
  induction more generalizing s fuel with
  | nil =>
      obtain ⟨fuel, rfl⟩ := Nat.exists_eq_add_one_of_ne_zero (Nat.ne_zero_of_lt hfuel)
      rw [List.map_singleton, String.intercalate_singleton]
      exact items?_last (value?_quote s fuel depth _)
  | cons t more ih =>
      obtain ⟨fuel, rfl⟩ := Nat.exists_eq_add_one_of_ne_zero (Nat.ne_zero_of_lt hfuel)
      rw [bytes_intercalate, List.append_assoc, List.cons_append, items?_comma (value?_quote s fuel depth _),
        ih t (Nat.lt_of_succ_lt_succ hfuel)]
      rfl

theorem bytes_intercalate_head (s : String) (more : List String) :
    ∃ cs, (",".intercalate ((s :: more).map quote)).toList.flatMap bytesOf = '"' :: cs := by
  cases more with
  | nil =>
      rw [List.map_singleton, String.intercalate_singleton, bytes_quote]
      exact ⟨_, rfl⟩
  | cons t more =>
      rw [bytes_intercalate, bytes_quote]
      exact ⟨_, rfl⟩

theorem length_le_bytes (s : String) (more : List String) :
    more.length < ((",".intercalate ((s :: more).map quote)).toList.flatMap bytesOf).length := by
  induction more generalizing s with
  | nil =>
      obtain ⟨cs, hcs⟩ := bytes_intercalate_head s []
      rw [hcs]
      exact Nat.zero_lt_succ _
  | cons t more ih =>
      have hmore := ih t
      rw [bytes_intercalate, List.length_append, List.length_cons, List.length_cons]
      omega

theorem value?_bracket (fuel depth : Nat) (cs : List Char) :
    value? (fuel + 1) (depth + 1) .everything ('[' :: '"' :: cs) =
      (items? fuel depth .everything ('"' :: cs)).map fun (items, rest) => (.arr items, rest) := by
  rw [value?.eq_def]
  rfl

theorem compactItems_strings (l : List String) : compactItems (l.map .str) = l.map quote := by
  induction l with
  | nil => rfl
  | cons s more ih => rw [List.map_cons, compactItems, compact, ih, List.map_cons]

/-- A list of texts is read from what is written for it. -/
theorem parse?_compact_strings (l : List String) : parse? (strings l).compact = some (strings l) := by
  have hopen : "[".toList.flatMap bytesOf = ['['] := flatMap_bytesOf_ascii (by simp)
  have hclose : "]".toList.flatMap bytesOf = [']'] := flatMap_bytesOf_ascii (by simp)
  rw [parse?, parseBytes?, encode_map_ofByte, strings, compact, compactItems_strings, String.toList_append,
    String.toList_append, List.flatMap_append, List.flatMap_append, hopen, hclose, List.append_assoc]
  cases l with
  | nil => rfl
  | cons s more =>
      obtain ⟨cs, hcs⟩ := bytes_intercalate_head s more
      have hlength := length_le_bytes s more
      have hitems : ∀ fuel, more.length < fuel →
          items? (fuel + 1) 126 .everything ('"' :: (cs ++ [']'])) = some ((s :: more).map .str, []) := by
        intro fuel hfuel
        rw [← List.cons_append, ← hcs]
        exact items?_quotes s more hfuel 126 []
      rw [hcs, List.length_cons] at hlength
      rw [hcs, List.singleton_append, List.cons_append, depthLimit, value?_bracket, hitems]
      · rfl
      · simp only [List.length_cons, List.length_append]
        omega

end Lists

end CodeAtlas.Json
