import ZohoOs.Memory.PageMap

/-!
# The pages of a range

Pages of the 48-bit space by their number, the 2 MiB blocks they lie in, and the pages that a range of
addresses is made of.

## Main definitions

* `pageAddr`: the address of a page
* `InRange`, `PageRange`: the addresses of a range, and the ranges that consist of pages

## Main results

* `pageNumber_pageAddr`, `directory_pageAddr`: the page and the directory entry over an address
* `inRange_iff`: a range of pages, by their numbers
-/

namespace ZohoOs

/-- The address of page number `n`. -/
def pageAddr (n : Nat) : BitVec 64 := BitVec.ofNat 64 (0x1000 * n)

section Numbers

variable {virt size v v' : BitVec 64} {n m : Nat}

theorem directory_eq_iff_block : (pageNumber v).directory = (pageNumber v').directory ↔
    v.toNat / 0x200000 % 2 ^ 27 = v'.toNat / 0x200000 % 2 ^ 27 := by
  simp only [PageNumber.directory, pageNumber, Prod.mk.injEq, Fin.ext_iff, pml4Index, pdptIndex,
    pdIndex, index_val]
  omega

theorem pageAddr_toNat (hn : n < 2 ^ 36) : (pageAddr n).toNat = 0x1000 * n := by
  rw [pageAddr, BitVec.toNat_ofNat, Nat.mod_eq_of_lt (by omega)]

theorem pageNumber_pageAddr (hn : n < 2 ^ 36) (hv : v.toNat < 2 ^ 48) :
    pageNumber v = pageNumber (pageAddr n) ↔ v.toNat / 0x1000 = n := by
  rw [pageNumber_eq_iff, pageIndex, pageIndex, pageAddr_toNat hn]
  omega

theorem directory_pageAddr (hn : n < 2 ^ 36) (hv : v.toNat < 2 ^ 48) :
    (pageNumber v).directory = (pageNumber (pageAddr n)).directory ↔
      v.toNat / 0x200000 = n / 512 := by
  rw [directory_eq_iff_block, pageAddr_toNat hn]
  omega

theorem directory_pageAddr_iff (hn : n < 2 ^ 36) (hm : m < 2 ^ 36) :
    (pageNumber (pageAddr n)).directory = (pageNumber (pageAddr m)).directory ↔
      n / 512 = m / 512 := by
  have hlt : (pageAddr n).toNat < 2 ^ 48 := by
    rw [pageAddr_toNat hn]
    omega
  rw [directory_pageAddr hm hlt, pageAddr_toNat hn]
  omega

theorem pageNumber_pageAddr_iff (hn : n < 2 ^ 36) (hm : m < 2 ^ 36) :
    pageNumber (pageAddr n) = pageNumber (pageAddr m) ↔ n = m := by
  have hlt : (pageAddr n).toNat < 2 ^ 48 := by
    rw [pageAddr_toNat hn]
    omega
  rw [pageNumber_pageAddr hm hlt, pageAddr_toNat hn]
  omega

/-- Every address is under the page with its number. -/
theorem pageNumber_pageIndex (v : BitVec 64) :
    pageIndex v < 2 ^ 36 ∧ pageNumber v = pageNumber (pageAddr (pageIndex v)) := by
  have hlt : pageIndex v < 2 ^ 36 := Nat.mod_lt _ (by decide)
  refine ⟨hlt, ?_⟩
  rw [pageNumber_eq_iff, pageIndex.eq_1 (pageAddr _), pageAddr_toNat hlt]
  omega

end Numbers

/-! ## Ranges -/

/-- The address lies in the range. -/
def InRange (virt size v : BitVec 64) : Prop :=
  virt.toNat ≤ v.toNat ∧ v.toNat < virt.toNat + size.toNat

/-- A range of pages in the 48-bit space. -/
structure PageRange (virt size : BitVec 64) : Prop where
  virt_aligned : virt.toNat % 0x1000 = 0
  size_aligned : size.toNat % 0x1000 = 0
  bound : virt.toNat + size.toNat ≤ 2 ^ 48

section Ranges

variable {virt size v : BitVec 64} (hrange : PageRange virt size)

include hrange

theorem InRange.lt (hv : InRange virt size v) : v.toNat < 2 ^ 48 :=
  lt_of_lt_of_le hv.2 hrange.bound

theorem inRange_iff : InRange virt size v ↔ virt.toNat / 0x1000 ≤ v.toNat / 0x1000 ∧
    v.toNat / 0x1000 < (virt.toNat + size.toNat) / 0x1000 := by
  have h₁ := hrange.virt_aligned
  have h₂ := hrange.size_aligned
  unfold InRange
  omega

end Ranges

end ZohoOs
