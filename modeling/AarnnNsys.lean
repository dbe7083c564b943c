import AarnnNsys.Bus.Refinement
import AarnnNsys.Bus.Registration
import AarnnNsys.Bus.Width
import AarnnNsys.Bus.Backpressure
import AarnnNsys.Bus.RelayLog
import AarnnNsys.Bus.Attach
import AarnnNsys.Bus.AdvanceLoop
import AarnnNsys.Bus.RaceFree
import AarnnNsys.Bus.Crash
import AarnnNsys.Bus.Liveness
import AarnnNsys.Bus.WaitFree
import AarnnNsys.Bus.Linearization
import AarnnNsys.Bus.ChainLiveness
import AarnnNsys.Bus.Programs
import AarnnNsys.L2.Loss
import AarnnNsys.L2.Acknowledge
import AarnnNsys.L2.Robust
import AarnnNsys.L2.Numbering
import AarnnNsys.Usb.Arrival
import AarnnNsys.Usb.Accept
import AarnnNsys.Usb.Truncation
import AarnnNsys.Bridge.SelfWait
import AarnnNsys.Bridge.Echo
import AarnnNsys.Bridge.HopLimit
import AarnnNsys.Bridge.Burst
import AarnnNsys.Bridge.TestBench
import AarnnNsys.Cli.Start
