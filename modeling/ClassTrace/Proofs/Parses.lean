import ClassTrace.ClassFile.Pool
import ClassTrace.Proofs.Layout

/-!
Readers that invert a layout. A reader parses a stretch of bytes to a value when it gives the
value and stops right behind the stretch, whatever follows. The two kinds of readers keep their
position in different ways, so the notion takes the state at an offset as a parameter, and
sequences, tables and blocks are treated once for both.
-/
namespace ClassTrace

open Layout

namespace Bytes

theorem length_ofNat (width n : Nat) : (ofNat width n).length = width := by
  induction width with
  | zero => rfl
  | succ width ih => simp only [ofNat, List.length_cons, ih]

theorem foldl_ofNat (width n acc : Nat) :
    (ofNat width n).foldl (fun m b => m * 256 + b.toNat) acc =
      acc * Nat.pow 256 width + n % Nat.pow 256 width := by
  induction width generalizing acc with
  | zero => simp only [ofNat, List.foldl_nil, Nat.pow, Nat.mod_one]; omega
  | succ width ih =>
    have hdigit : (n / Nat.pow 256 width).toUInt8.toNat = n / Nat.pow 256 width % 256 :=
      UInt8.toNat_ofNat'
    have hsplit : n % (Nat.pow 256 width * 256) =
        n % Nat.pow 256 width + Nat.pow 256 width * (n / Nat.pow 256 width % 256) := Nat.mod_mul
    simp only [ofNat, List.foldl_cons, ih, hdigit]
    change _ = acc * (Nat.pow 256 width * 256) + n % (Nat.pow 256 width * 256)
    rw [hsplit, Nat.add_mul, Nat.mul_comm (n / _ % 256), Nat.mul_assoc acc, Nat.mul_comm 256]
    omega

/-- The bytes of a number that fits their width stand for it. -/
theorem toNat_ofNat {width n : Nat} (h : n < Nat.pow 256 width) : toNat (ofNat width n) = n := by
  rw [toNat, foldl_ofNat, Nat.zero_mul, Nat.zero_add, Nat.mod_eq_of_lt h]

end Bytes

/-- The reader takes the bytes, gives the value and leaves everything behind them. The state at an
offset, with the bytes from there on, is `view`. -/
def Parses {σ α : Type} (view : Nat → Bytes → σ) (reader : StateT σ (Except FormatError) α)
    (bytes : Bytes) (a : α) : Prop :=
  ∀ offset rest, reader (view offset (bytes ++ rest)) = .ok (a, view (offset + bytes.length) rest)

namespace Parses

variable {σ α β : Type} {view : Nat → Bytes → σ} {reader : StateT σ (Except FormatError) α}

theorem pure (a : α) : Parses view (Pure.pure a) [] a := fun _ _ => rfl

/-- Readers one after the other take what each of them takes. -/
theorem bind {next : α → StateT σ (Except FormatError) β} {bytes more : Bytes} {a : α} {b : β}
    (hreader : Parses view reader bytes a) (hnext : Parses view (next a) more b) :
    Parses view (reader >>= next) (bytes ++ more) b := by
  intro offset rest
  have hfirst := hreader offset (more ++ rest)
  have hsecond := hnext (offset + bytes.length) rest
  rw [List.append_assoc, List.length_append, ← Nat.add_assoc, ← hsecond]
  change Except.bind (reader _) _ = _
  rw [hfirst]
  rfl

/-- A reader that takes nothing stands in front. -/
theorem after {next : α → StateT σ (Except FormatError) β} {bytes : Bytes} {a : α} {b : β}
    (hreader : Parses view reader [] a) (hnext : Parses view (next a) bytes b) :
    Parses view (reader >>= next) bytes b := bind hreader hnext

/-- Nothing is taken any more after the reader. -/
theorem before {next : α → StateT σ (Except FormatError) β} {bytes : Bytes} {a : α} {b : β}
    (hreader : Parses view reader bytes a) (hnext : Parses view (next a) [] b) :
    Parses view (reader >>= next) bytes b := by
  have h := bind hreader hnext
  rwa [List.append_nil] at h

theorem map {bytes : Bytes} {a : α} (hreader : Parses view reader bytes a) (f : α → β) :
    Parses view (reader >>= fun a => Pure.pure (f a)) bytes (f a) := before hreader (pure (f a))

theorem lift {x : Except FormatError α} {a : α} (h : x = .ok a) :
    Parses view (liftM x) [] a := by
  subst h
  exact fun _ _ => rfl

/-- A reader that is repeated takes the items one after the other. -/
theorem mapM_range' {γ : Type} {read : Nat → StateT σ (Except FormatError) β} {encode : γ → Bytes}
    {value : γ → β} (items : List γ)
    (hitem : ∀ i, ∀ c ∈ items, Parses view (read i) (encode c) (value c)) (start : Nat) :
    Parses view ((List.range' start items.length).mapM read) (items.flatMap encode)
      (items.map value) := by
  induction items generalizing start with
  | nil => exact pure _
  | cons c items ih =>
    rw [List.length_cons, List.range'_succ, List.mapM_cons, List.flatMap_cons, List.map_cons]
    refine bind (hitem start c (List.mem_cons_self ..)) ?_
    exact map (ih (fun i c' hc => hitem i c' (List.mem_cons_of_mem _ hc)) _) (value c :: ·)

end Parses

def ReadsNumber {σ α : Type} (view : Nat → Bytes → σ) (reader : StateT σ (Except FormatError) α)
    (width : Nat) (value : Nat → α) : Prop :=
  ∀ n, n < Nat.pow 256 width → Parses view reader (Bytes.ofNat width n) (value n)

section Readers

variable {σ α β γ : Type} {view : Nat → Bytes → σ}

/-- A number is read by taking its bytes. -/
theorem ReadsNumber.of_bytes {take : StateT σ (Except FormatError) Bytes} {width : Nat}
    (htake : ∀ data : Bytes, data.length = width → Parses view take data data) (value : Nat → α) :
    ReadsNumber view (take >>= fun data => pure (value data.toNat)) width value := by
  intro n hn
  have h := (htake _ (Bytes.length_ofNat width n)).map fun data => value data.toNat
  rwa [Bytes.toNat_ofNat hn] at h

variable {u2 : StateT σ (Except FormatError) UInt16} {u4 : StateT σ (Except FormatError) UInt32}

theorem ReadsNumber.word (h : ReadsNumber view u2 2 Nat.toUInt16) (v : UInt16) :
    Parses view u2 (word v) v := by
  have hv := h v.toNat v.toNat_lt
  rwa [show v.toNat.toUInt16 = v from UInt16.ofNat_toNat] at hv

/-- Members behind their number, when the readers of both are followed by another. -/
theorem ReadsNumber.table (hcount : ReadsNumber view u2 2 Nat.toUInt16)
    {read : Nat → StateT σ (Except FormatError) β} {encode : γ → Bytes} {value : γ → β}
    {items : List γ} (hfits : items.length < 65536)
    (hitem : ∀ i, ∀ c ∈ items, Parses view (read i) (encode c) (value c))
    {next : List β → StateT σ (Except FormatError) α} {bytes : Bytes} {a : α}
    (hnext : Parses view (next (items.map value)) bytes a) :
    Parses view (u2 >>= fun count => (List.range count.toNat).mapM read >>= next)
      (table encode items ++ bytes) a := by
  have hlength : items.length.toUInt16.toNat = items.length := UInt16.toNat_ofNat_of_lt' hfits
  rw [Layout.table, List.append_assoc]
  refine (hcount _ hfits).bind ?_
  rw [hlength, List.range_eq_range']
  exact (Parses.mapM_range' items hitem 0).bind hnext

theorem ReadsNumber.table_last (hcount : ReadsNumber view u2 2 Nat.toUInt16)
    {read : Nat → StateT σ (Except FormatError) β} {encode : γ → Bytes} {value : γ → β}
    {items : List γ} (hfits : items.length < 65536)
    (hitem : ∀ i, ∀ c ∈ items, Parses view (read i) (encode c) (value c)) :
    Parses view (u2 >>= fun count => (List.range count.toNat).mapM read)
      (Layout.table encode items)
      (items.map value) := by
  have h := hcount.table hfits hitem (Parses.pure (items.map value))
  simpa only [bind_pure, List.append_nil] using h

/-- Bytes behind their number, when the readers of both are followed by another. -/
theorem ReadsNumber.block (hlength : ReadsNumber view u4 4 Nat.toUInt32)
    (take : Nat → StateT σ (Except FormatError) Bytes)
    (htake : ∀ data : Bytes, Parses view (take data.length) data data)
    {data : Bytes} (hfits : data.length < 4294967296)
    {next : Bytes → StateT σ (Except FormatError) α} {bytes : Bytes} {a : α}
    (hnext : Parses view (next data) bytes a) :
    Parses view (u4 >>= fun length => take length.toNat >>= next) (block data ++ bytes) a := by
  have hdata : data.length.toUInt32.toNat = data.length := UInt32.toNat_ofNat_of_lt' hfits
  rw [Layout.block, List.append_assoc]
  refine (hlength _ hfits).bind ?_
  rw [hdata]
  exact (htake data).bind hnext

theorem Pool.utf8At_parses {pool : Pool} {index : UInt16} (h : Designates pool index)
    (place : FormatError.Place) :
    Parses view (pool.utf8At place index) [] (text pool index) := by
  unfold Designates text? at h
  unfold Pool.utf8At Pool.utf8 text text?
  split at h
  · next heq => rw [heq]; exact Parses.pure _
  · cases h

end Readers

namespace StreamReader

def view (_ : Nat) (rest : Bytes) : Bytes := rest

theorem bytes_parses {n : Nat} (data : Bytes) (h : data.length = n) :
    Parses view (bytes n) data data := by
  intro offset rest
  subst h
  simp only [bytes, view, List.take_left', List.drop_left', ↓reduceIte]

theorem within_parses {α : Type} {reader : StreamReader α} {data : Bytes} {a : α}
    (h : Parses view reader data a) (place : FormatError.Place) :
    Parses view (within place reader) data a := by
  intro offset rest
  simp only [within, h offset rest]

theorem u1_parses (v : UInt8) : Parses view u1 [v] v := by
  have h := (bytes_parses [v] rfl).map fun data => data.toNat.toUInt8
  have hv : (Bytes.toNat [v]).toUInt8 = v := by simp [Bytes.toNat]
  rwa [hv] at h

theorem u2_reads : ReadsNumber view u2 2 Nat.toUInt16 := .of_bytes bytes_parses _

theorem u4_reads : ReadsNumber view u4 4 Nat.toUInt32 := .of_bytes bytes_parses _

theorem u8_reads : ReadsNumber view u8 8 Nat.toUInt64 := .of_bytes bytes_parses _

theorem u4_parses (v : UInt32) : Parses view u4 (Bytes.ofNat 4 v.toNat) v := by
  have h := u4_reads v.toNat v.toNat_lt
  rwa [show v.toNat.toUInt32 = v from UInt32.ofNat_toNat] at h

theorem u8_parses (v : UInt64) : Parses view u8 (Bytes.ofNat 8 v.toNat) v := by
  have h := u8_reads v.toNat v.toNat_lt
  rwa [show v.toNat.toUInt64 = v from UInt64.ofNat_toNat] at h

theorem u2_within (place : FormatError.Place) :
    ReadsNumber view (within place u2) 2 Nat.toUInt16 :=
  fun n hn => within_parses (u2_reads n hn) place

theorem u4_within (place : FormatError.Place) :
    ReadsNumber view (within place u4) 4 Nat.toUInt32 :=
  fun n hn => within_parses (u4_reads n hn) place

theorem pair_parses (a b : UInt16) : Parses view pair (word a ++ word b) (a, b) :=
  (u2_reads.word a).bind ((u2_reads.word b).map fun b => (a, b))

end StreamReader

namespace PayloadReader

theorem bytes_parses (part : FormatError.Part) {n : Nat} (data : Bytes) (h : data.length = n) :
    Parses Cursor.mk (bytes part n) data data := by
  intro offset rest
  subst h
  simp only [bytes, List.take_left', List.drop_left', ↓reduceIte]

theorem u2_reads (part : FormatError.Part) : ReadsNumber Cursor.mk (u2 part) 2 Nat.toUInt16 :=
  .of_bytes (bytes_parses part) _

theorem u4_reads (part : FormatError.Part) : ReadsNumber Cursor.mk (u4 part) 4 Nat.toUInt32 :=
  .of_bytes (bytes_parses part) _

theorem run_of_parses {α : Type} {reader : PayloadReader α} {data : Bytes} {a : α}
    (h : Parses Cursor.mk reader data a) : run reader data = .ok a := by
  have hall := h 0 []
  rw [List.append_nil] at hall
  simp only [run, hall]

end PayloadReader

end ClassTrace
