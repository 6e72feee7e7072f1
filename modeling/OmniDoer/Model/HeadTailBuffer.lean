import Mathlib.Data.List.DropRight

/-! The output buffer of `core/src/unified_exec/head_tail_buffer.rs`, which keeps the beginning
and the end of what it is given. -/

namespace OmniDoer.UnifiedExec

structure HeadTailBuffer where
  maxBytes : ℕ
  headBudget : ℕ
  tailBudget : ℕ
  head : List UInt8
  tail : List UInt8
  omittedBytes : ℕ

namespace HeadTailBuffer

def new (maxBytes : ℕ) : HeadTailBuffer where
  maxBytes
  headBudget := maxBytes / 2
  tailBudget := maxBytes - maxBytes / 2
  head := []
  tail := []
  omittedBytes := 0

def trimTailToBudget (b : HeadTailBuffer) : HeadTailBuffer :=
  let excess := b.tail.length - b.tailBudget
  if 0 < excess then
    { b with tail := b.tail.drop excess, omittedBytes := b.omittedBytes + excess }
  else b

def pushToTail (b : HeadTailBuffer) (chunk : List UInt8) : HeadTailBuffer :=
  if chunk.isEmpty then b
  else if b.tailBudget = 0 then { b with omittedBytes := b.omittedBytes + chunk.length }
  else if b.tailBudget ≤ chunk.length then
    let kept := chunk.drop (chunk.length - b.tailBudget)
    let dropped := chunk.length - kept.length
    { b with tail := kept, omittedBytes := b.omittedBytes + b.tail.length + dropped }
  else trimTailToBudget { b with tail := b.tail ++ chunk }

def pushChunk (b : HeadTailBuffer) (chunk : List UInt8) : HeadTailBuffer :=
  if chunk.isEmpty then b
  else if b.maxBytes = 0 then { b with omittedBytes := b.omittedBytes + chunk.length }
  else
    let headLen := min (b.headBudget - b.head.length) chunk.length
    pushToTail { b with head := b.head ++ chunk.take headLen } (chunk.drop headLen)

/-- The drained contents, and the buffer that is left. -/
def drain (b : HeadTailBuffer) : HeadTailBuffer × HeadTailBuffer :=
  (b, { b with head := [], tail := [], omittedBytes := 0 })

def pushBuffer (b buffer : HeadTailBuffer) : HeadTailBuffer :=
  let b := (b.pushChunk buffer.head).pushChunk buffer.tail
  { b with omittedBytes := b.omittedBytes + buffer.omittedBytes }

end HeadTailBuffer

end OmniDoer.UnifiedExec
