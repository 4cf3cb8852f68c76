/-
What a client can do with `X-Forwarded-For`: nothing. The result is the
peer, unless that is trusted and the list ends with an address that is not,
and trusted ones behind it. What is in front of that address, in its line
or in earlier ones, is not looked at.

The lines are joined and split again, which gives the elements of each one
after the other (`elements_eq`). The scan from the right skips trusted
hops, so it stops at the last element that is not one (`scan_skip`).
-/
import Tokyo3Base.ClientIP.Extractor
import Tokyo3Base.Go.Proofs.Path

namespace Tokyo3Base.ClientIP

open Go NetIP

variable {e : Extractor} {peer : GoString}

-- ==== elements

/-- The elements of all lines, in order. -/
def elements (lines : List GoString) : List GoString :=
  lines.flatMap (split comma)

/-- Joining the lines and splitting them gives their elements. -/
theorem elements_eq {lines : List GoString} (hne : lines ≠ []) :
    split comma (join comma lines) = elements lines := by
  induction lines with
  | nil => exact absurd rfl hne
  | cons w lines ih =>
      cases lines with
      | nil => exact (List.flatMap_singleton _ _).symm
      | cons v lines =>
          rw [join, split_append, ih (List.cons_ne_nil _ _)]
          · exact (List.flatMap_cons).symm
          · exact List.cons_ne_nil v lines

-- ==== scan

/-- A hop that is an address, and trusted. -/
structure Extractor.TrustedHop (e : Extractor) (part : GoString) : Prop where
  valid : parseIP (trimSpace part) ≠ none
  trusted : e.isTrusted (trimSpace part) = true

/-- A hop that is an address, and not trusted. -/
structure Extractor.ForeignHop (e : Extractor) (part : GoString) : Prop where
  valid : parseIP (trimSpace part) ≠ none
  untrusted : e.isTrusted (trimSpace part) = false

theorem scan_skip {hops : List GoString}
    (h : ∀ t ∈ hops, e.TrustedHop t) (parts : List GoString) :
    e.scan peer (hops ++ parts) = e.scan peer parts := by
  induction hops with
  | nil => rfl
  | cons t hops ih =>
      have ht := h t List.mem_cons_self
      rw [List.cons_append, Extractor.scan, if_neg ht.valid, ht.trusted]
      exact ih fun x hx => h x (List.mem_cons_of_mem _ hx)

/-- The scan stops at the first hop that is not trusted. -/
theorem scan_foreign {u : GoString} (hu : e.ForeignHop u)
    (parts : List GoString) :
    e.scan peer (u :: parts) = canonical (trimSpace u) := by
  rw [Extractor.scan, if_neg hu.valid, hu.untrusted]
  rfl

/-- If it finds none, the result is the peer. -/
theorem scan_cases (e : Extractor) (peer : GoString)
    (parts : List GoString) :
    (∃ hops u rest, parts = hops ++ u :: rest
        ∧ (∀ t ∈ hops, e.TrustedHop t) ∧ e.ForeignHop u)
      ∨ e.scan peer parts = peer := by
  induction parts with
  | nil => exact .inr rfl
  | cons part parts ih =>
      by_cases hvalid : parseIP (trimSpace part) = none
      · right
        rw [Extractor.scan, if_pos hvalid]
      cases htrusted : e.isTrusted (trimSpace part) with
      | false => exact .inl ⟨[], part, parts, rfl, nofun, hvalid, htrusted⟩
      | true =>
          rcases ih with ⟨hops, u, rest, rfl, hhops, hu⟩ | hpeer
          · refine .inl ⟨part :: hops, u, rest, rfl, fun t ht => ?_, hu⟩
            rcases List.mem_cons.mp ht with rfl | ht
            · exact ⟨hvalid, htrusted⟩
            · exact hhops t ht
          · right
            have hhop : ∀ t ∈ [part], e.TrustedHop t := fun t ht =>
              List.mem_singleton.mp ht ▸ ⟨hvalid, htrusted⟩
            exact (scan_skip hhop parts).trans hpeer

-- ==== requests

def peerOf (r : Request) : GoString := canonical (hostOnly r.remoteAddr)

/-- With a peer that is not trusted, or with no trusted networks, the
header is not looked at. -/
theorem fromRequest_untrusted {r : Request}
    (h : e.isTrustedPeer r = false) : e.fromRequest r = peerOf r := by
  unfold Extractor.isTrustedPeer Extractor.hasTrustedProxies at h
  rw [Bool.and_eq_false_iff, decide_eq_false_iff_not] at h
  unfold Extractor.fromRequest
  refine if_pos ?_
  rcases h with h | h
  · exact .inl (Nat.eq_zero_of_not_pos h)
  · exact .inr (by rw [h]; rfl)

/-- Otherwise all elements are scanned, from the last on. -/
theorem fromRequest_trusted {r : Request} (h : e.isTrustedPeer r = true) :
    e.fromRequest r
      = e.scan (peerOf r) (elements r.forwardedFor).reverse := by
  unfold Extractor.isTrustedPeer Extractor.hasTrustedProxies at h
  rw [Bool.and_eq_true, decide_eq_true_eq] at h
  have hpeer : ¬ (e.trusted.length = 0
      ∨ (!e.isTrusted (canonical (hostOnly r.remoteAddr))) = true) := by
    rw [h.2]
    simp only [Bool.not_true, Bool.false_eq_true, or_false]
    exact Nat.pos_iff_ne_zero.mp h.1
  unfold Extractor.fromRequest
  dsimp only
  rw [if_neg hpeer]
  by_cases hlines : r.forwardedFor = []
  · rw [hlines]
    rfl
  · rw [elements_eq hlines]
    split
    · -- a single empty element is no address
      rename_i hempty
      have hone : elements r.forwardedFor = [[]] := by
        rw [← elements_eq hlines, hempty]
        rfl
      rw [hone]
      rfl
    · rfl

/-- The header does not matter with an untrusted peer. With a trusted one,
an address `u` that is not trusted with trusted ones behind it is the
result, whatever elements or lines are in front of it. In every other case
the result is the peer. -/
theorem fromRequest_spec (e : Extractor) (r : Request) :
    (e.isTrustedPeer r = false → ∀ lines,
        e.fromRequest { r with forwardedFor := lines } = peerOf r)
      ∧ (e.isTrustedPeer r = true → ∀ pre u hops,
        elements r.forwardedFor = pre ++ u :: hops →
        e.ForeignHop u → (∀ t ∈ hops, e.TrustedHop t) →
        e.fromRequest r = canonical (trimSpace u))
      ∧ ((¬ ∃ pre u hops, e.isTrustedPeer r = true
          ∧ elements r.forwardedFor = pre ++ u :: hops
          ∧ e.ForeignHop u ∧ ∀ t ∈ hops, e.TrustedHop t) →
        e.fromRequest r = peerOf r) := by
  refine ⟨fun h lines => fromRequest_untrusted h,
    fun h pre u hops hlist hu hhops => ?_, fun hother => ?_⟩
  · rw [fromRequest_trusted h, hlist, List.reverse_append,
      List.reverse_cons, List.append_assoc,
      scan_skip fun t ht => hhops t (List.mem_reverse.mp ht)]
    exact scan_foreign hu _
  · cases hpeer : e.isTrustedPeer r with
    | false => exact fromRequest_untrusted hpeer
    | true =>
        rw [fromRequest_trusted hpeer]
        rcases scan_cases e (peerOf r)
          (elements r.forwardedFor).reverse with
          ⟨hops, u, rest, hparts, hhops, hu⟩ | hscan
        · -- read from the right, the trusted hops are the last ones
          refine absurd ⟨rest.reverse, u, hops.reverse, hpeer, ?_, hu,
            fun t ht => hhops t (List.mem_reverse.mp ht)⟩ hother
          have hrev := congrArg List.reverse hparts
          simpa using hrev
        · exact hscan

/-- An extractor that trusts `10.0.0.0/8`. -/
def privateExtractor : Extractor where
  trusted := [⟨[10, 0, 0, 0], [255, 0, 0, 0]⟩]

/-- A client at `198.51.100.7` that sent a line of its own, behind two
proxies. -/
def spoofedRequest : Request where
  remoteAddr := ascii "10.0.0.5:4444"
  forwardedFor := [ascii "1.1.1.1, ,x", ascii "198.51.100.7, 10.0.0.9"]

theorem fromRequest_spec_spoofed :
    privateExtractor.fromRequest spoofedRequest = ascii "198.51.100.7" := by
  have hpeer : privateExtractor.isTrustedPeer spoofedRequest = true := by
    decide +kernel
  have hspec := (fromRequest_spec privateExtractor spoofedRequest).2.1 hpeer
    [ascii "1.1.1.1", ascii " ", ascii "x"] (ascii "198.51.100.7")
    [ascii " 10.0.0.9"] (by decide +kernel)
    ⟨by decide +kernel, by decide +kernel⟩ fun t ht => by
      cases List.mem_singleton.mp ht
      exact ⟨by decide +kernel, by decide +kernel⟩
  rw [hspec]
  decide +kernel

end Tokyo3Base.ClientIP
