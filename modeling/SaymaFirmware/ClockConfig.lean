import SaymaFirmware.I2c

/-!
# The clock configuration routines

`i2c_setSI5324`, `i2c_RTM_PWRON` and `i2c_setSI5324_RTM` of `i2c.c`, with the two register tables. The three routines drop the
result of every `i2c_write` they make, so they take it as a function of the address, the bytes and the state that gives the next
state (`I2cWriter`). The delays between the writes change no state and are left out.
-/

namespace SaymaFirmware

/-- `TCAADDR`: the I2C switch of the AMC. -/
def tcaAddr : UInt8 := 0x71
/-- `TCARTMADDR`: the I2C switch of the RTM. -/
def tcaRtmAddr : UInt8 := 0x76
/-- `IIC_SLAVE_ADDR`: the address of both Si5324 clock chips. -/
def iicSlaveAddr : UInt8 := 0x68
/-- The address of the IO expander of the RTM, a literal in `i2c_RTM_PWRON`. -/
def ioExpanderAddr : UInt8 := 0x3E

/-- `SI324Info`: a register of the clock chip and the value to write to it. -/
structure SI324Info where
  regIndex : UInt8
  value : UInt8
deriving DecidableEq, Repr

/-- `InitTable`: the registers of the AMC's clock chip. -/
def initTable : List SI324Info := [
  ⟨0, 0x34⟩, ⟨1, 0xE4⟩, ⟨2, 0xA2⟩, ⟨3, 0x55⟩, ⟨4, 0x92⟩, ⟨5, 0xAD⟩, ⟨6, 0x3F⟩, ⟨7, 0x2A⟩,
  ⟨8, 0x00⟩, ⟨9, 0xC0⟩, ⟨10, 0x00⟩, ⟨11, 0x40⟩, ⟨19, 0x29⟩, ⟨20, 0x3E⟩, ⟨21, 0xFE⟩, ⟨22, 0xDF⟩,
  ⟨23, 0x1F⟩, ⟨24, 0x3F⟩, ⟨25, 0x60⟩, ⟨31, 0x00⟩, ⟨32, 0x00⟩, ⟨33, 0x07⟩, ⟨34, 0x00⟩, ⟨35, 0x00⟩,
  ⟨36, 0x07⟩, ⟨40, 0x80⟩, ⟨41, 0x01⟩, ⟨42, 0x6B⟩, ⟨43, 0x00⟩, ⟨44, 0x00⟩, ⟨45, 0x0C⟩, ⟨46, 0x00⟩,
  ⟨47, 0x00⟩, ⟨48, 0x0C⟩, ⟨55, 0x00⟩, ⟨131, 0x1F⟩, ⟨132, 0x02⟩, ⟨137, 0x01⟩, ⟨138, 0x0F⟩, ⟨139, 0xFF⟩,
  ⟨142, 0x00⟩, ⟨143, 0x00⟩, ⟨136, 0x40⟩]

/-- `InitTable_RTM`: the registers of the RTM's clock chip. -/
def initTableRtm : List SI324Info := [
  ⟨0, 0x54⟩, ⟨1, 0xE1⟩, ⟨2, 0x82⟩, ⟨3, 0x55⟩, ⟨4, 0x92⟩, ⟨5, 0xAD⟩, ⟨6, 0x2D⟩, ⟨7, 0x2A⟩,
  ⟨8, 0x00⟩, ⟨9, 0xC0⟩, ⟨10, 0x00⟩, ⟨11, 0x40⟩, ⟨19, 0x29⟩, ⟨20, 0x3E⟩, ⟨21, 0xFE⟩, ⟨22, 0xDF⟩,
  ⟨23, 0x1F⟩, ⟨24, 0x3F⟩, ⟨25, 0x60⟩, ⟨31, 0x00⟩, ⟨32, 0x00⟩, ⟨33, 0x05⟩, ⟨34, 0x00⟩, ⟨35, 0x00⟩,
  ⟨36, 0x05⟩, ⟨40, 0x60⟩, ⟨41, 0x0A⟩, ⟨42, 0xA9⟩, ⟨43, 0x00⟩, ⟨44, 0x00⟩, ⟨45, 0x5A⟩, ⟨46, 0x00⟩,
  ⟨47, 0x01⟩, ⟨48, 0x9F⟩, ⟨55, 0x00⟩, ⟨131, 0x1F⟩, ⟨132, 0x02⟩, ⟨137, 0x01⟩, ⟨138, 0x0F⟩, ⟨139, 0xFF⟩,
  ⟨142, 0x00⟩, ⟨143, 0x00⟩, ⟨136, 0x40⟩]

/-- The two data bytes a table entry is written with. -/
def SI324Info.bytes (e : SI324Info) : List UInt8 := [e.regIndex, e.value]

/-- A call of `i2c_write` whose result is dropped. -/
abbrev I2cWriter (σ : Type) := UInt8 → List UInt8 → σ → σ

variable {σ : Type}

/-- The loop over a register table. -/
def writeTable (write : I2cWriter σ) (table : List SI324Info) (s : σ) : σ :=
  table.foldl (fun s e => write iicSlaveAddr e.bytes s) s

/-- `i2c_setSI5324`. -/
def i2cSetSI5324 (write : I2cWriter σ) (s : σ) : σ :=
  -- select channel 4 only
  let s := write tcaAddr [16] s
  let s := writeTable write initTable s
  -- deselect switch
  write tcaAddr [0] s

/-- `i2c_setSI5324_RTM`. -/
def i2cSetSI5324Rtm (write : I2cWriter σ) (s : σ) : σ :=
  -- select channel 7 only, then channel 5 only of the second switch
  let s := write tcaAddr [128] s
  let s := write tcaRtmAddr [32] s
  let s := writeTable write initTableRtm s
  -- deselect both switches, the inner one first
  let s := write tcaRtmAddr [0] s
  write tcaAddr [0] s

/-- The first value `i2c_RTM_PWRON` writes to the IO expander: `1<<7 | 1`. -/
def pwronFirst : UInt8 := 0x81
/-- The second value: `1<<7 | 1<<5 | 1<<4 | 1`. -/
def pwronSecond : UInt8 := 0xB1

/-- `i2c_RTM_PWRON`. -/
def i2cRtmPwron (write : I2cWriter σ) (s : σ) : σ :=
  let s := write tcaAddr [128] s
  let s := write ioExpanderAddr [pwronFirst] s
  let s := write ioExpanderAddr [pwronSecond] s
  write tcaAddr [0] s

end SaymaFirmware
