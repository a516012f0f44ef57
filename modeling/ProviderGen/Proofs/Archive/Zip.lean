import ProviderGen.Archive.Zip
import Mathlib.Tactic.Common

/-!
Reading an archive gives the entries that were written, as long as the fields of its records have
room for the counts and sizes. What a record says is read off where the record stands.
-/

namespace ProviderGen.Archive.Zip

/-- These bytes stand at this place. -/
def HasAt (b : ByteArray) (place : ℕ) (x : ByteArray) : Prop :=
  ∃ before after, b = before ++ x ++ after ∧ before.size = place

variable {b x y : ByteArray} {place place' offset v : ℕ} {e : Entry} {es : List Entry}

/-! ### Parts of what stands somewhere -/

lemma HasAt.left (h : HasAt b place (x ++ y)) : HasAt b place x := by
  obtain ⟨before, after, rfl, hsize⟩ := h
  exact ⟨before, y ++ after, by simp only [ByteArray.append_assoc], hsize⟩

lemma HasAt.right (h : HasAt b place (x ++ y)) (hp : place + x.size = place') :
    HasAt b place' y := by
  obtain ⟨before, after, rfl, rfl⟩ := h
  exact ⟨before ++ x, after, by simp only [ByteArray.append_assoc],
    by rw [ByteArray.size_append, hp]⟩

lemma HasAt.le_size (h : HasAt b place x) : place + x.size ≤ b.size := by
  obtain ⟨before, after, rfl, rfl⟩ := h
  simp only [ByteArray.size_append]
  omega

lemma HasAt.slice? (h : HasAt b place x) : slice? b place x.size = some x := by
  rw [Zip.slice?, if_pos h.le_size]
  obtain ⟨before, after, rfl, rfl⟩ := h
  have hskip := ByteArray.extract_append_size_add (a := before) (b := x ++ after) (i := 0)
    (j := x.size)
  rw [Nat.add_zero] at hskip
  rw [ByteArray.append_assoc, hskip, ByteArray.extract_append_eq_left rfl]

lemma toList_le16 (v : ℕ) : (le16 v).data.toList = [UInt8.ofNat v, UInt8.ofNat (v / 256)] := rfl

lemma HasAt.number_le16 (h : HasAt b place (le16 v)) (hv : v < 65536) :
    number? b place 2 = some v := by
  have hslice := h.slice?
  rw [size_le16] at hslice
  rw [number?, hslice, Option.map_some, toList_le16]
  simp only [List.foldr_cons, List.foldr_nil, UInt8.toNat_ofNat', Option.some.injEq]
  omega

lemma HasAt.number_le32 (h : HasAt b place (le32 v)) (hv : v < 4294967296) :
    number? b place 4 = some v := by
  have hslice := h.slice?
  rw [size_le32] at hslice
  rw [number?, hslice, Option.map_some, le32, ByteArray.data_append, Array.toList_append,
    toList_le16, toList_le16]
  simp only [List.cons_append, List.nil_append, List.foldr_cons, List.foldr_nil,
    UInt8.toNat_ofNat', Option.some.injEq]
  omega

/-! ### Records -/

@[simp] lemma size_facts (e : Entry) : (facts e).size = 26 := by
  simp [facts]

lemma size_entryRecord (e : Entry) :
    (entryRecord e).size = 30 + e.name.toUTF8.size + e.bytes.size := by
  simp [entryRecord]

lemma size_directoryRecord (e : Entry) (offset : ℕ) :
    (directoryRecord e offset).size = 46 + e.name.toUTF8.size := by
  simp [directoryRecord]

/-- The fields of an entry that are read back. -/
structure Facts (b : ByteArray) (place : ℕ) (e : Entry) : Prop where
  method : number? b (place + 4) 2 = some 0
  size : number? b (place + 18) 4 = some e.bytes.size
  nameSize : number? b (place + 22) 2 = some e.name.toUTF8.size
  extraSize : number? b (place + 24) 2 = some 0

lemma HasAt.facts (h : HasAt b place (facts e)) (hname : e.name.toUTF8.size < 65536)
    (hbytes : e.bytes.size < 4294967296) : Facts b place e where
  method := (h.left.left.left.left.left.left.left.right (by simp)).number_le16 (by decide)
  size := (h.left.left.right (by simp)).number_le32 hbytes
  nameSize := (h.left.right (by simp)).number_le16 hname
  extraSize := (h.right (by simp)).number_le16 (by decide)

lemma fromUTF8?_toUTF8 (s : String) : String.fromUTF8? s.toUTF8 = some s := by
  simp only [String.fromUTF8?, String.toUTF8_eq_toByteArray, dif_pos s.isValidUTF8]
  rfl

/-- An entry is read from its two records. -/
lemma entryAt?_eq (hname : e.name.toUTF8.size < 65536) (hb : b.size < 4294967296)
    (hdir : HasAt b place (directoryRecord e offset)) (hown : HasAt b offset (entryRecord e)) :
    entryAt? b place = some (e, place + (directoryRecord e offset).size) := by
  have hroom := hown.le_size
  rw [size_entryRecord] at hroom
  have hmark := hdir.left.left.left.left.left.left.left.left.number_le32 (v := directoryMark)
    (by decide)
  have hfacts : Facts b (place + 6) e :=
    (hdir.left.left.left.left.left.left.right (by simp)).facts hname (by omega)
  have hremark : number? b (place + 32) 2 = some 0 :=
    (hdir.left.left.left.left.left.right (by simp)).number_le16 (by decide)
  have hplace : number? b (place + 42) 4 = some offset :=
    (hdir.left.right (by simp)).number_le32 (by omega)
  have htext : HasAt b (place + 46) e.name.toUTF8 := hdir.right (by simp)
  have hfacts' : Facts b (offset + 4) e := (hown.left.left.right (by simp)).facts hname (by omega)
  have hbytes : HasAt b (offset + 30 + e.name.toUTF8.size + 0) e.bytes :=
    hown.right (by simp; omega)
  have hmethod : number? b (place + 10) 2 = some 0 := hfacts.method
  have hsize : number? b (place + 24) 4 = some e.bytes.size := hfacts.size
  have hnameSize : number? b (place + 28) 2 = some e.name.toUTF8.size := hfacts.nameSize
  have hextra : number? b (place + 30) 2 = some 0 := hfacts.extraSize
  have hnameSize' : number? b (offset + 26) 2 = some e.name.toUTF8.size := hfacts'.nameSize
  have hextra' : number? b (offset + 28) 2 = some 0 := hfacts'.extraSize
  rw [entryAt?, size_directoryRecord]
  simp only [hmark, hmethod, hsize, hnameSize, hextra, hremark, hplace, htext.slice?,
    fromUTF8?_toUTF8, hnameSize', hextra', hbytes.slice?, Option.bind_eq_bind, Option.bind_some]
  simp [Nat.add_assoc]

/-! ### The whole archive -/

/-- The records of the entries, one after the other. -/
def records : List Entry → ByteArray
  | [] => .empty
  | e :: es => entryRecord e ++ records es

lemma foldl_entryRecord (x : ByteArray) (es : List Entry) :
    es.foldl (fun b e => b ++ entryRecord e) x = x ++ records es := by
  induction es generalizing x with
  | nil => simp [records]
  | cons e es ih => rw [List.foldl_cons, ih, records, ByteArray.append_assoc]

lemma encode_eq (es : List Entry) : encode es =
    records es ++ directory 0 es ++
      endRecord es.length (directory 0 es).size (records es).size := by
  rw [encode, foldl_entryRecord, ByteArray.empty_append]

lemma size_encode (es : List Entry) :
    (encode es).size = (records es).size + (directory 0 es).size + 22 := by
  rw [encode_eq]
  simp [endRecord, ByteArray.size_append]

lemma entriesFrom?_eq (hes : ∀ e ∈ es, e.name.toUTF8.size < 65536)
    (hdir : HasAt b place (directory offset es)) (hown : HasAt b offset (records es))
    (hb : b.size < 4294967296) : entriesFrom? b place es.length = some es := by
  induction es generalizing place offset with
  | nil => rfl
  | cons e es ih =>
    rw [List.forall_mem_cons] at hes
    rw [List.length_cons, entriesFrom?, entryAt?_eq hes.1 hb hdir.left hown.left]
    simp only [Option.bind_eq_bind, Option.bind_some]
    rw [ih hes.2 (hdir.right rfl) (hown.right rfl)]
    rfl

lemma lastEnd?_eq (h : number? b v 4 = some endMark) : lastEnd? b v = some v := by
  cases v with
  | zero => rw [lastEnd?, if_pos h]
  | succ v => rw [lastEnd?, if_pos h]

/-- The fields of the records have room for what is said about the entries. -/
structure Fits (es : List Entry) : Prop where
  count : es.length < 65536
  names : ∀ e ∈ es, e.name.toUTF8.size < 65536
  size : (encode es).size < 4294967296

/-- **What is written is read back.** -/
theorem decode?_encode (h : Fits es) : decode? (encode es) = some es := by
  have hrecords : HasAt (encode es) 0 (records es) :=
    ⟨.empty, directory 0 es ++ endRecord es.length (directory 0 es).size (records es).size,
      by rw [encode_eq, ByteArray.empty_append, ByteArray.append_assoc], rfl⟩
  have hdirectory : HasAt (encode es) (records es).size (directory 0 es) :=
    ⟨records es, endRecord es.length (directory 0 es).size (records es).size, encode_eq es, rfl⟩
  have hend : HasAt (encode es) ((records es).size + (directory 0 es).size)
      (endRecord es.length (directory 0 es).size (records es).size) :=
    ⟨records es ++ directory 0 es, .empty, by rw [encode_eq, ByteArray.append_empty],
      ByteArray.size_append⟩
  have hmark := hend.left.left.left.left.left.left.left.number_le32 (v := endMark) (by decide)
  have hcounts : number? (encode es) ((records es).size + (directory 0 es).size + 10) 2 =
      some es.length :=
    (hend.left.left.left.right (by simp)).number_le16 h.count
  have hplace : number? (encode es) ((records es).size + (directory 0 es).size + 16) 4 =
      some (records es).size :=
    (hend.left.right (by simp)).number_le32 (by have := h.size; have := size_encode es; omega)
  rw [decode?, size_encode, Nat.add_sub_cancel, lastEnd?_eq hmark]
  simp only [hcounts, hplace, Option.bind_eq_bind, Option.bind_some,
    entriesFrom?_eq h.names hdirectory hrecords h.size]
  simp

end ProviderGen.Archive.Zip
