/-
  Which of the domains that can be registered can be browsed.

  The pallet forbids some characters in a domain, and the proxy splits what a browser asks for at
  `://`, `/` and `:`. The last two are not among the forbidden ones, and a domain that has one of
  them is not what the proxy looks up (`browsable_iff`).
-/
import Siip.Pallet.DomainRules
import Siip.Proxy.UrlText

namespace Siip.Proxy

open Pallet Python

/-! ## What a URL is parsed to -/

theorem splitProtocol_https (rest : Bytes) :
    splitProtocol (asBytes "https://" ++ rest) = (asBytes "https", rest) := by
  have hbytes : asBytes "https://" = asBytes "https" ++ asBytes "://" := by decide +kernel
  have hlower : lower (asBytes "https") = asBytes "https" := by decide +kernel
  rw [hbytes, splitProtocol_append (by decide +kernel), hlower]

section

variable {host tail : Bytes} (hslash : 47 ∉ host)

include hslash

theorem parse_page (hcolon : 58 ∉ host) (tail : Bytes) :
    HttpUrl.parse (asBytes "https://" ++ (host ++ 47 :: tail)) =
      .ok { protocol := asBytes "https", host := lower host, port := 443, uri := 47 :: tail } := by
  rw [parse_eq, splitProtocol_https, splitUri_append hslash, splitPort_of_notMem hcolon,
    if_pos rfl]

/-- With a colon in it, the host is cut there. -/
theorem host_of_colon (hcolon : 58 ∈ host) {url : HttpUrl}
    (h : HttpUrl.parse (asBytes "https://" ++ (host ++ 47 :: tail)) = .ok url) :
    url.host.length < host.length := by
  obtain ⟨front, port, rfl, hfront⟩ := List.eq_append_cons_of_mem hcolon
  rw [parse_eq, splitProtocol_https, splitUri_append hslash, splitPort_append hfront] at h
  split at h
  · rename_i fields host' port' hfields
    obtain ⟨rfl, -⟩ := List.cons.inj hfields
    split at h
    · exact absurd h (by simp)
    · obtain ⟨⟩ := h
      simp [lower]
  · exact absurd h (by simp)

theorem host_length_le {url : HttpUrl}
    (h : HttpUrl.parse (asBytes "https://" ++ (host ++ 47 :: tail)) = .ok url) :
    url.host.length ≤ host.length := by
  by_cases hcolon : 58 ∈ host
  · exact Nat.le_of_lt (host_of_colon hslash hcolon h)
  · obtain ⟨⟩ := (parse_page hslash hcolon tail).symm.trans h
    simp [lower]

theorem parse_tunnel (hcolon : 58 ∉ host) :
    HttpUrl.parse (host ++ asBytes ":443") =
      .ok { protocol := asBytes "https", host := lower host, port := 443, uri := asBytes "/" } := by
  have hport : asBytes ":443" = 58 :: asBytes "443" := by decide +kernel
  have hslash' : 47 ∉ host ++ 58 :: asBytes "443" := by
    rw [List.mem_append, not_or]
    exact ⟨hslash, by decide +kernel⟩
  -- without a slash there is no protocol
  have hfind : find (asBytes "://") (host ++ 58 :: asBytes "443") = none :=
    find_eq_none_of_mem (by decide +kernel) hslash'
  have hsplit : (asBytes "443").splitOn 58 = [asBytes "443"] := by decide +kernel
  have hint : int 10 (asBytes "443") = some 443 := by decide +kernel
  rw [hport, parse_eq, splitProtocol_of_find hfind, splitUri_of_notMem hslash',
    splitPort_append hcolon, hsplit]
  simp only [hint]

end

/-! ## The domains that the pallet accepts -/

/-- No byte of an accepted domain is an uppercase letter, so the proxy looks for it as it is. -/
theorem lower_of_accepts {env : Env}
    (hupper : ∀ c : Char, c.isUpper = true → env.isUppercase c = true) {d : Bytes}
    (h : accepts (checkDomain env d) = true) : lower d = d := by
  obtain ⟨cs, hs, hplain, -⟩ := (accepts_checkDomain_iff env d).mp h
  have hchar : ∀ b : UInt8, 65 ≤ b ∧ b ≤ 90 → b < 128 ∧ (Char.ofNat b.toNat).isUpper = true := by
    decide +kernel
  refine (List.map_congr_left fun b hb => ?_).trans (List.map_id d)
  rw [lowerByte, if_neg, id]
  intro hletter
  obtain ⟨hascii, hisUpper⟩ := hchar b hletter
  rw [← utf8Bytes_of_fromUtf8 hs] at hb
  have hlower := hplain.lowercase _ (mem_of_mem_utf8Bytes hb hascii)
  exact absurd (hlower.symm.trans (hupper _ hisUpper)) (by decide)

/-- The URL of a page of the domain, and the address in a `CONNECT`, are parsed to the domain. -/
structure Browsable (d p : Bytes) : Prop where
  page : ∃ url, HttpUrl.parse (asBytes "https://" ++ d ++ p) = .ok url ∧
    url.host = d ∧ url.port = 443 ∧ url.uri = p
  tunnel : ∃ url, HttpUrl.parse (d ++ asBytes ":443") = .ok url ∧ url.host = d ∧ url.port = 443

/-- With a colon or a slash in it, the domain is cut before the first of them. -/
theorem not_page_of_mem {d tail : Bytes} (h : 58 ∈ d ∨ 47 ∈ d) {url : HttpUrl}
    (hparse : HttpUrl.parse (asBytes "https://" ++ (d ++ 47 :: tail)) = .ok url) :
    url.host ≠ d := by
  suffices hshort : url.host.length < d.length by
    rintro rfl
    exact Nat.lt_irrefl _ hshort
  by_cases hslash : 47 ∈ d
  · obtain ⟨host, rest, rfl, hhost⟩ := List.eq_append_cons_of_mem hslash
    rw [List.append_assoc, List.cons_append] at hparse
    have hle := host_length_le hhost hparse
    rw [List.length_append, List.length_cons]
    omega
  · exact host_of_colon hslash (h.resolve_right hslash) hparse

/-- A domain that can be registered can be browsed if and only if it has no colon and no slash. -/
theorem browsable_iff (env : Env) (hupper : ∀ c : Char, c.isUpper = true → env.isUppercase c = true)
    (d p : Bytes) (hd : accepts (checkDomain env d) = true) (hp : p.head? = some 47) :
    Browsable d p ↔ 58 ∉ d ∧ 47 ∉ d := by
  obtain ⟨tail, rfl⟩ : ∃ tail, p = 47 :: tail := List.head?_eq_some_iff.mp hp
  constructor
  · intro h
    obtain ⟨url, hparse, hhost, -⟩ := h.page
    rw [List.append_assoc] at hparse
    rw [← not_or]
    exact fun hmem => not_page_of_mem hmem hparse hhost
  · intro h
    obtain ⟨hcolon, hslash⟩ := h
    have hlower := lower_of_accepts hupper hd
    have hpage := parse_page hslash hcolon tail
    rw [← List.append_assoc] at hpage
    exact ⟨⟨_, hpage, hlower, rfl, rfl⟩, ⟨_, parse_tunnel hslash hcolon, hlower, rfl⟩⟩

theorem browsable_ab : Browsable (asBytes "ab.cd") (asBytes "/") :=
  (browsable_iff asciiEnv (fun _ h => h) (asBytes "ab.cd") (asBytes "/") accepts_checkDomain_ab
    (by decide +kernel)).mpr (by decide +kernel)

/-- A domain that is stored as it is and looked up as `a`. -/
theorem slash_not_browsable :
    accepts (checkDomain asciiEnv (asBytes "a/b.cd")) = true ∧
      HttpUrl.parse (asBytes "https://" ++ asBytes "a/b.cd" ++ asBytes "/") =
        .ok ⟨asBytes "https", asBytes "a", 443, asBytes "/b.cd/"⟩ ∧
      ¬ Browsable (asBytes "a/b.cd") (asBytes "/") := by
  have hparse : HttpUrl.parse (asBytes "https://" ++ asBytes "a/b.cd" ++ asBytes "/") =
      .ok ⟨asBytes "https", asBytes "a", 443, asBytes "/b.cd/"⟩ := by
    decide +kernel
  refine ⟨?_, hparse, fun h => ?_⟩
  · rw [accepts_checkDomain, fromUtf8_asBytes]
    decide +kernel
  · obtain ⟨url, hparse', hhost, -⟩ := h.page
    obtain ⟨⟩ := hparse.symm.trans hparse'
    exact absurd hhost (by decide +kernel)

end Siip.Proxy
